import Wrkr.Grpc.Build
import Wrkr.Grpc.Wire.RoundTrip

/-!
# The two decoders

A response is decoded over the output fields of its method and their index by number, a message
inside another one over its meta. For one message both are built from the same fields.
-/
namespace Wrkr.Grpc.Wire

/-- Decoding a message as the response of a method and as a message inside another one is the same,
whatever was built before and whatever the bytes are. -/
theorem decoders_agree (rt : Runtime) (pool : DescriptorPool) {input desc : MessageDescriptor}
    {depth depth' : Nat} {method : GrpcMethod} {memo before after : Memo} {msg : GrpcMessageMeta}
    (top : buildMethod pool depth input desc = .ok (method, memo))
    (reached : before.Reached pool)
    (nested : buildMessageMeta pool depth' desc before = .ok (msg, after)) (bytes : Bytes) :
    decodeMessageForMethod rt method bytes = decodeMessageForMeta rt msg bytes := by
  have isMethod := ((methodFields_outcome pool depth input desc).of_ok top).1
  have isMeta := ((buildMessageMeta_outcome depth' desc reached.sound).of_ok nested).1
  obtain ⟨inputFields, rfl⟩ := fields_eq_of_built isMethod isMeta
  obtain ⟨fields⟩ := msg
  exact decodeMessageForMethod_new rt inputFields fields bytes

/-- `message Reply { Item item = 1; }` and `message Item { string name = 1; int64 count = 2; }`. -/
def itemPool : DescriptorPool where
  messages :=
    [⟨⟨"Reply"⟩, [⟨⟨"item", 1⟩, .message ⟨"Item"⟩, false, false⟩]⟩,
      ⟨⟨"Item"⟩, [⟨⟨"name", 1⟩, .string, false, false⟩, ⟨⟨"count", 2⟩, .int64, false, false⟩]⟩]
  mapEntries m inPool f isField isMap := by
    simp only [List.mem_cons, List.not_mem_nil, or_false] at inPool
    rcases inPool with rfl | rfl
    · obtain rfl := List.mem_singleton.mp isField
      cases isMap
    · rcases List.mem_pair.mp isField with rfl | rfl <;> cases isMap

/-- A message with one field, built as the output of a method and as a message of its own. -/
theorem decoders_agree_item :
    ∃ method memo msg after, buildMethod itemPool 3 ⟨"Reply"⟩ ⟨"Item"⟩ = .ok (method, memo) ∧
      buildMessageMeta itemPool 3 ⟨"Item"⟩ (Memo.new.enter ⟨"Reply"⟩) = .ok (msg, after) ∧
      ∀ bytes, decodeMessageForMethod ieee method bytes = decodeMessageForMeta ieee msg bytes := by
  have reached : (Memo.new.enter ⟨"Reply"⟩).Reached itemPool := .entered .new rfl (by decide)
  have top : ∃ method memo, buildMethod itemPool 3 ⟨"Reply"⟩ ⟨"Item"⟩ = .ok (method, memo) :=
    ⟨_, _, rfl⟩
  have nested : ∃ msg after,
      buildMessageMeta itemPool 3 ⟨"Item"⟩ (Memo.new.enter ⟨"Reply"⟩) = .ok (msg, after) :=
    ⟨_, _, rfl⟩
  obtain ⟨method, memo, top⟩ := top
  obtain ⟨msg, after, nested⟩ := nested
  exact ⟨method, memo, msg, after, top, nested, decoders_agree ieee itemPool top reached nested⟩

end Wrkr.Grpc.Wire

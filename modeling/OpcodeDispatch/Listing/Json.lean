import OpcodeDispatch.Json
import OpcodeDispatch.Listing.Tally
import OpcodeDispatch.Run

/-!
JSON forms of listings, tallies and summaries, their members in a fixed order.
-/

namespace OpcodeDispatch

def Opcode.toJson (op : Opcode) : Json := .ofNat op.val

def CycleCost.toJson : CycleCost → Json
  | .fixed n => .object [("kind", .ofString "fixed"), ("cycles", .ofNat n.toNat)]
  | .conditional t n =>
    .object [("kind", .ofString "conditional"), ("taken", .ofNat t.toNat), ("not_taken", .ofNat n.toNat)]

def Family.toJson : Family → Json
  | .add carry => .object [("add", .object [("carry", .bool carry)])]
  | .subtract carry => .object [("subtract", .object [("carry", .bool carry)])]
  | f => .ofString f.name

namespace AddressingMode

/-- The name of a mode, and the register it goes with. -/
def tag : AddressingMode → String × Option Register
  | register r => ("register", some r)
  | immediateByte => ("immediate_byte", none)
  | immediateWord => ("immediate_word", none)
  | relativeByte => ("relative_byte", none)
  | stackOffset => ("stack_offset", none)
  | indirect (.pair p) => ("pair_indirect", some (.pair p))
  | indirect (.increment p) => ("auto_increment", some (.pair p))
  | indirect (.decrement p) => ("auto_decrement", some (.pair p))
  | indirect .absolute => ("absolute_indirect", none)
  | indirect .highByte => ("high_memory_offset", none)
  | indirect .highRegister => ("offset_by_register", some (.byte .c))

def members (m : AddressingMode) : List (String × Json) :=
  ("mode", .ofString m.tag.1) :: (m.tag.2.map fun r => ("register", .ofString r.name)).toList

def toJson (m : AddressingMode) : Json := .object m.members

end AddressingMode

namespace FlagEffects

def members (fx : FlagEffects) : List (String × Json) :=
  [("reset", .ofString fx.reset.render), ("set", .ofString fx.set.render),
   ("computed", .ofString fx.computed.render)]

def toJson (fx : FlagEffects) : Json := .object fx.members

end FlagEffects

def ListedOperand.toJson (o : ListedOperand) : Json :=
  .object [("text", .ofString o.text), ("mode", .ofOption AddressingMode.toJson o.mode)]

def ListedOpcode.toJson (e : ListedOpcode) : Json :=
  .object [
    ("opcode", e.opcode.toJson),
    ("reserved", .bool e.reserved),
    ("instruction", .ofOption .ofString e.instruction),
    ("family", .ofOption Family.toJson e.family),
    ("operands", .array (e.operands.map ListedOperand.toJson)),
    ("ticks", .ofOption CycleCost.toJson e.ticks),
    ("cycles", .ofOption CycleCost.toJson e.cycles),
    ("flags", .ofOption FlagEffects.toJson e.flags),
    ("arm", .ofString e.arm)]

def Listing.toJson (listing : List ListedOpcode) : Json := .array (listing.map ListedOpcode.toJson)

def FamilyTally.toJson (t : FamilyTally) : Json :=
  .object [("family", .ofString t.family), ("count", .ofNat t.count),
    ("conditional", .ofNat t.conditional), ("cycles", .ofNat t.cycles.toNat)]

def Tally.toJson (t : Tally) : Json :=
  .object [("opcodes", .ofNat t.opcodes), ("reserved", .ofNat t.reserved),
    ("families", .array (t.families.map FamilyTally.toJson))]

def Summary.toJson (s : Summary) : Json :=
  .object [("arms", .ofNat s.arms), ("code", .ofNat s.code), ("undefined", .ofNat s.undefined),
    ("diagnostics", .ofNat s.diagnostics), ("complete", .bool s.complete)]

end OpcodeDispatch

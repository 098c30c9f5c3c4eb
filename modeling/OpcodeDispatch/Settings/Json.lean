import OpcodeDispatch.Json.Deserializer
import OpcodeDispatch.Settings.Basic

/-!
Settings as JSON: the names of the fields and of their variants, by which a deserializer reads them.
-/

namespace OpcodeDispatch

/-- Why a settings text gives no settings. -/
inductive SettingsError where
  /-- the text is not the JSON of settings, for a reason the deserializer gives -/
  | malformed (reason : String)
  | invalid (fault : Fault)
  deriving DecidableEq

namespace Settings

def strictnessNames : List (String × Strictness) := [("strict", .strict), ("lenient", .lenient)]

def costStyleNames : List (String × CostStyle) := [("pair", .pair), ("not_taken", .notTaken)]

section

variable (d : Deserializer)

/-- The fields in order. -/
def fields : List (RecordField Settings) :=
  [⟨"ticks_per_cycle", fun j =>
     (d.unsigned UInt32.size j).map fun n s => { s with ticksPerCycle := .ofFin n }⟩,
   ⟨"high_memory_base", fun j =>
     (d.unsigned UInt16.size j).map fun n s => { s with highMemoryBase := .ofFin n }⟩,
   ⟨"reserved", fun j => (d.list (d.unsigned 256) j).map fun ops s => { s with reserved := ops }⟩,
   ⟨"strictness", fun j => (d.variant strictnessNames j).map fun v s => { s with strictness := v }⟩,
   ⟨"cost_style", fun j => (d.variant costStyleNames j).map fun v s => { s with costStyle := v }⟩]

def ofJson (j : Json) : Except String Settings := d.record (fields d) default j

def parse (text : String) : Except SettingsError Settings :=
  match d.tree text >>= ofJson d with
  | .error reason => .error (.malformed reason)
  | .ok s =>
    match s.validate with
    | .ok () => .ok s
    | .error f => .error (.invalid f)

end

def strictnessName : Strictness → String
  | .strict => "strict"
  | .lenient => "lenient"

def costStyleName : CostStyle → String
  | .pair => "pair"
  | .notTaken => "not_taken"

/-- The members that set every field. -/
def toMembers (s : Settings) : List (String × Json) :=
  [("ticks_per_cycle", Json.ofNat s.ticksPerCycle.toNat),
   ("high_memory_base", Json.ofNat s.highMemoryBase.toNat),
   ("reserved", .array (s.reserved.map fun op => Json.ofNat op.val)),
   ("strictness", Json.ofString (strictnessName s.strictness)),
   ("cost_style", Json.ofString (costStyleName s.costStyle))]

def toJson (s : Settings) : Json := .object s.toMembers

end Settings
end OpcodeDispatch

import OpcodeDispatch.Arm.OfEntry

/-!
Decoding a record. Whatever goes wrong while its arm is made concerns that record alone: the fault
is recoverable and names the record's opcode. What goes well is an operation of the record's family.
-/

namespace OpcodeDispatch

theorem bind_eq_ok {x : Except Fault α} {f : α → Except Fault β} {b : β} (h : x >>= f = .ok b) :
    ∃ a, x = .ok a ∧ f a = .ok b := by
  cases x with
  | error e => cases h
  | ok a => exact ⟨a, rfl, h⟩

theorem bind_eq_error {x : Except Fault α} {f : α → Except Fault β} {e : Fault}
    (h : x >>= f = .error e) : x = .error e ∨ ∃ a, x = .ok a ∧ f a = .error e := by
  cases x with
  | error e' => exact .inl (by cases h; rfl)
  | ok a => exact .inr ⟨a, rfl, h⟩

namespace Fault

/-- The opcode whose record a fault concerns. -/
def opcode? : Fault → Option Opcode
  | truncated op .. | endsEarly op .. | badCycles op .. | unsupportedOperand op .. |
    missingOperand op .. | badRestart op .. => some op
  | _ => none

/-- Reading cannot go on, whatever the settings. -/
def breaksReading : Fault → Bool
  | unreadable .. | truncated .. | misaligned .. => true
  | _ => false

/-- A table that is too short or too long, which a lenient reader lets pass. -/
def isLength : Fault → Bool
  | endsEarly .. | trailing .. => true
  | _ => false

variable {f : Fault}

theorem isLength_of_breaksReading (h : f.breaksReading = true) : f.isLength = false := by
  cases f with
  | unreadable | truncated | misaligned => rfl
  | _ => cases h

theorem isRecoverable_of_breaksReading (h : f.breaksReading = true) : f.isRecoverable = false := by
  cases f with
  | unreadable | truncated | misaligned => rfl
  | _ => cases h

theorem isRecoverable_of_isLength (h : f.isLength = true) : f.isRecoverable = false := by
  cases f with
  | endsEarly | trailing => rfl
  | _ => cases h

theorem breaksReading_of_isLength (h : f.isLength = true) : f.breaksReading = false := by
  cases f with
  | endsEarly | trailing => rfl
  | _ => cases h

end Fault

namespace Record

/-- Every fault of `x` is recoverable and concerns the record. -/
def Blamed (r : Record) (x : Except Fault α) : Prop :=
  ∀ f, x = .error f → f.isRecoverable = true ∧ f.opcode? = some r.opcode

variable {r : Record}

theorem blamed_ok (a : α) : r.Blamed (.ok a : Except Fault α) := by
  intro f h
  cases h

theorem blamed_error {f : Fault} (h : f.isRecoverable = true) (hop : f.opcode? = some r.opcode) :
    r.Blamed (.error f : Except Fault α) := by
  intro g hg
  cases hg
  exact ⟨h, hop⟩

theorem blamed_bind {x : Except Fault α} {f : α → Except Fault β} (hx : r.Blamed x)
    (hf : ∀ a, r.Blamed (f a)) : r.Blamed (x >>= f) := by
  intro g hg
  rcases bind_eq_error hg with hg | ⟨a, -, hg⟩
  · exact hx g hg
  · exact hf a g hg

theorem blamed_unsupported (operand : String) :
    r.Blamed (.error (r.unsupported operand) : Except Fault α) :=
  blamed_error rfl rfl

theorem blamed_require (operand : String) (o : Option α) : r.Blamed (r.require operand o) := by
  cases o with
  | none => exact blamed_unsupported operand
  | some a => exact blamed_ok a

theorem blamed_operandAs (as? : AddressingMode → Option α) (operand : String) :
    r.Blamed (r.operandAs as? operand) :=
  blamed_bind (blamed_require _ _) fun _ => blamed_require _ _

theorem blamed_arityFault (most : Nat) : r.Blamed (.error (r.arityFault most) : Except Fault α) := by
  unfold arityFault
  split
  · exact blamed_error rfl rfl
  · exact blamed_unsupported _

theorem blamed_cost : r.Blamed r.cost := by
  unfold cost
  split
  · exact blamed_ok _
  · exact blamed_error rfl rfl

end Record

namespace Family

variable {mnemonic : String} {f : Family}

/-- The table lists no mnemonic twice. -/
theorem find?_eq_some : find? mnemonic = some f ↔ (mnemonic, f) ∈ table := by
  have hrows : ∀ x ∈ table, find? x.1 = some x.2 := by decide
  refine ⟨fun h => ?_, hrows _⟩
  obtain ⟨x, hx, rfl⟩ := Option.map_eq_some_iff.1 h
  have hname : x.1 = mnemonic := by simpa using List.find?_some hx
  rw [← hname]
  exact List.mem_of_find?_eq_some hx

theorem ofMnemonic_eq (h : f ≠ nullary) : ofMnemonic mnemonic = f ↔ (Text.upper mnemonic, f) ∈ table := by
  rw [← find?_eq_some, ofMnemonic]
  cases find? (Text.upper mnemonic) with
  | none => simp [h.symm]
  | some g => simp

end Family

namespace Operation

open Record

variable (r : Record)

theorem blamed_ofLoad : r.Blamed (ofLoad r) := by
  unfold ofLoad
  split
  · refine blamed_bind (blamed_require _ _) fun target => ?_
    refine blamed_bind (blamed_require _ _) fun source => ?_
    split
    · exact blamed_bind (blamed_require _ _) fun _ => blamed_bind (blamed_require _ _) fun _ => blamed_ok _
    · exact blamed_bind (blamed_require _ _) fun _ => blamed_bind (blamed_require _ _) fun _ => blamed_ok _
  · exact blamed_arityFault 2

theorem blamed_ofConditioned (as? : AddressingMode → Option α)
    (make : α → Option Condition → Operation) : r.Blamed (ofConditioned r as? make) := by
  unfold ofConditioned
  split
  · exact blamed_bind (blamed_operandAs _ _) fun _ => blamed_ok _
  · refine blamed_bind (blamed_require _ _) fun cc => ?_
    exact blamed_bind (blamed_operandAs _ _) fun _ => blamed_ok _
  · exact blamed_arityFault 2

theorem blamed_ofRet : r.Blamed (ofRet r) := by
  unfold ofRet
  split
  · exact blamed_ok _
  · exact blamed_bind (blamed_require _ _) fun _ => blamed_ok _
  · exact blamed_arityFault 1

theorem blamed_ofUnary (as? : AddressingMode → Option α) (make : α → Operation) :
    r.Blamed (ofUnary r as? make) := by
  unfold ofUnary
  split
  · exact blamed_bind (blamed_operandAs _ _) fun _ => blamed_ok _
  · exact blamed_arityFault 1

theorem blamed_ofAdd (carry : Bool) : r.Blamed (ofAdd r carry) := by
  unfold ofAdd
  split
  · exact blamed_bind (blamed_operandAs _ _) fun _ => blamed_ok _
  · refine blamed_bind (blamed_require _ _) fun target => ?_
    split
    · exact blamed_bind (blamed_operandAs _ _) fun _ => blamed_ok _
    · exact blamed_bind (blamed_operandAs _ _) fun _ => blamed_ok _
    · exact blamed_operandAs _ _
    · exact blamed_unsupported _
  · exact blamed_arityFault 2

theorem blamed_ofAccumulate (make : ByteSource → Operation) : r.Blamed (ofAccumulate r make) := by
  unfold ofAccumulate
  split
  · exact blamed_bind (blamed_operandAs _ _) fun _ => blamed_ok _
  · split
    · exact blamed_bind (blamed_operandAs _ _) fun _ => blamed_ok _
    · exact blamed_unsupported _
  · exact blamed_arityFault 2

theorem blamed_ofRestart : r.Blamed (ofRestart r) := by
  unfold ofRestart
  split
  · split
    · exact blamed_ok _
    · exact blamed_error rfl rfl
  · exact blamed_arityFault 1

theorem blamed_ofRecord : r.Blamed (ofRecord r) := by
  unfold ofRecord
  cases Family.ofMnemonic r.mnemonic with
  | load => exact blamed_ofLoad r
  | relativeJump | call | jump => exact blamed_ofConditioned r _ _
  | ret => exact blamed_ofRet r
  | increment | decrement | push | pop => exact blamed_ofUnary r _ _
  | add carry => exact blamed_ofAdd r carry
  | subtract | logic => exact blamed_ofAccumulate r _
  | restart => exact blamed_ofRestart r
  | extension | nullary => exact blamed_ok _

/-! ### The operations of a family -/

variable {r} {o : Operation}

theorem ofLoad_eq_ok (h : ofLoad r = .ok o) : (∃ t s, o = .loadByte t s) ∨ ∃ t s, o = .loadWord t s := by
  unfold ofLoad at h
  split at h
  · obtain ⟨target, -, h⟩ := bind_eq_ok h
    obtain ⟨source, -, h⟩ := bind_eq_ok h
    split at h
    · obtain ⟨t, -, h⟩ := bind_eq_ok h
      obtain ⟨s, -, h⟩ := bind_eq_ok h
      cases h
      exact .inr ⟨t, s, rfl⟩
    · obtain ⟨s, -, h⟩ := bind_eq_ok h
      obtain ⟨t, -, h⟩ := bind_eq_ok h
      cases h
      exact .inl ⟨t, s, rfl⟩
  · cases h

theorem ofConditioned_eq_ok {as? : AddressingMode → Option α} {make : α → Option Condition → Operation}
    (h : ofConditioned r as? make = .ok o) :
    ∃ a cc, o = make a cc ∧ r.operandList.length = cc.toList.length + 1 := by
  unfold ofConditioned at h
  split at h
  · next hops =>
    obtain ⟨a, -, h⟩ := bind_eq_ok h
    cases h
    exact ⟨a, none, rfl, by rw [hops]; rfl⟩
  · next hops =>
    obtain ⟨cc, -, h⟩ := bind_eq_ok h
    obtain ⟨a, -, h⟩ := bind_eq_ok h
    cases h
    exact ⟨a, some cc, rfl, by rw [hops]; rfl⟩
  · cases h

theorem ofRet_eq_ok (h : ofRet r = .ok o) : ∃ cc, o = .ret cc ∧ r.operandList.length = cc.toList.length := by
  unfold ofRet at h
  split at h
  · next hops =>
    cases h
    exact ⟨none, rfl, by rw [hops]; rfl⟩
  · next hops =>
    obtain ⟨cc, -, h⟩ := bind_eq_ok h
    cases h
    exact ⟨some cc, rfl, by rw [hops]; rfl⟩
  · cases h

theorem ofUnary_eq_ok {as? : AddressingMode → Option α} {make : α → Operation}
    (h : ofUnary r as? make = .ok o) : ∃ a, o = make a := by
  unfold ofUnary at h
  split at h
  · obtain ⟨a, -, h⟩ := bind_eq_ok h
    cases h
    exact ⟨a, rfl⟩
  · cases h

theorem operandAs_eq_ok {as? : AddressingMode → Option α} {operand : String} {a : α}
    (h : r.operandAs as? operand = .ok a) : ∃ m, as? m = some a := by
  obtain ⟨m, -, h⟩ := bind_eq_ok h
  refine ⟨m, ?_⟩
  unfold require at h
  split at h
  · next hm =>
    cases h
    exact hm
  · cases h

theorem ofAdd_eq_ok {carry : Bool} (h : ofAdd r carry = .ok o) :
    (∃ s, o = .addByte carry s) ∨ (∃ p, o = .addPair p) ∨ o = .addOffset := by
  unfold ofAdd at h
  split at h
  · obtain ⟨s, -, h⟩ := bind_eq_ok h
    cases h
    exact .inl ⟨s, rfl⟩
  · obtain ⟨target, -, h⟩ := bind_eq_ok h
    split at h
    · obtain ⟨s, -, h⟩ := bind_eq_ok h
      cases h
      exact .inl ⟨s, rfl⟩
    · obtain ⟨p, -, h⟩ := bind_eq_ok h
      cases h
      exact .inr (.inl ⟨p, rfl⟩)
    · obtain ⟨m, hm⟩ := operandAs_eq_ok h
      split at hm
      · cases hm
        exact .inr (.inr rfl)
      · cases hm
    · cases h
  · cases h

theorem ofAccumulate_eq_ok {make : ByteSource → Operation} (h : ofAccumulate r make = .ok o) :
    ∃ s, o = make s := by
  unfold ofAccumulate at h
  split at h
  · obtain ⟨s, -, h⟩ := bind_eq_ok h
    cases h
    exact ⟨s, rfl⟩
  · split at h
    · obtain ⟨s, -, h⟩ := bind_eq_ok h
      cases h
      exact ⟨s, rfl⟩
    · cases h
  · cases h

theorem ofRestart_eq_ok (h : ofRestart r = .ok o) : ∃ target, o = .restart target := by
  unfold ofRestart at h
  split at h
  · split at h
    · cases h
      exact ⟨_, rfl⟩
    · cases h
  · cases h

/-- The operations that a family has. -/
inductive Makes : Family → Operation → Prop
  | loadByte (t : ByteTarget) (s : ByteSource) : Makes .load (.loadByte t s)
  | loadWord (t : WordTarget) (s : WordSource) : Makes .load (.loadWord t s)
  | relativeJump (cc : Option Condition) : Makes .relativeJump (.relativeJump cc)
  | ret (cc : Option Condition) : Makes .ret (.ret cc)
  | call (cc : Option Condition) : Makes .call (.call cc)
  | jump (t : JumpTarget) (cc : Option Condition) : Makes .jump (.jump t cc)
  | increment (t : StepTarget) : Makes .increment (.increment t)
  | decrement (t : StepTarget) : Makes .decrement (.decrement t)
  | addByte (carry : Bool) (s : ByteSource) : Makes (.add carry) (.addByte carry s)
  | addPair (carry : Bool) (p : RegisterPair) : Makes (.add carry) (.addPair p)
  | addOffset (carry : Bool) : Makes (.add carry) .addOffset
  | subtract (carry : Bool) (s : ByteSource) : Makes (.subtract carry) (.subtract carry s)
  | logic (op : Logic) (s : ByteSource) : Makes (.logic op) (.logic op s)
  | push (p : RegisterPair) : Makes .push (.push p)
  | pop (p : RegisterPair) : Makes .pop (.pop p)
  | restart (target : UInt8) : Makes .restart (.restart target)
  | extension : Makes .extension .extension
  | primitive (name : String) : Makes .nullary (.primitive name)

theorem makes_ofRecord (h : ofRecord r = .ok o) : Makes (Family.ofMnemonic r.mnemonic) o := by
  unfold ofRecord at h
  cases hf : Family.ofMnemonic r.mnemonic <;> rw [hf] at h
  case load =>
    rcases ofLoad_eq_ok h with ⟨t, s, rfl⟩ | ⟨t, s, rfl⟩
    · exact .loadByte t s
    · exact .loadWord t s
  case relativeJump | call | jump =>
    obtain ⟨a, cc, rfl, -⟩ := ofConditioned_eq_ok h
    constructor
  case ret =>
    obtain ⟨cc, rfl, -⟩ := ofRet_eq_ok h
    exact .ret cc
  case increment | decrement | push | pop =>
    obtain ⟨a, rfl⟩ := ofUnary_eq_ok h
    constructor
  case add carry =>
    rcases ofAdd_eq_ok h with ⟨s, rfl⟩ | ⟨p, rfl⟩ | rfl
    · exact .addByte carry s
    · exact .addPair carry p
    · exact .addOffset carry
  case subtract | logic =>
    obtain ⟨s, rfl⟩ := ofAccumulate_eq_ok h
    constructor
  case restart =>
    obtain ⟨target, rfl⟩ := ofRestart_eq_ok h
    exact .restart target
  case extension =>
    cases h
    exact .extension
  case nullary =>
    cases h
    exact .primitive _

/-- Only a mnemonic without a family of its own becomes a call of its own name. -/
theorem ofRecord_eq_primitive {name : String} (h : ofRecord r = .ok (.primitive name)) :
    name = Text.lower r.mnemonic := by
  have hmakes := makes_ofRecord h
  unfold ofRecord at h
  generalize Family.ofMnemonic r.mnemonic = family at hmakes h
  cases hmakes
  cases h
  rfl

end Operation

namespace Arm

theorem blamed_ofRecord (s : Settings) (r : Record) : r.Blamed (ofRecord s r) := by
  refine Record.blamed_bind (Operation.blamed_ofRecord r) fun op => ?_
  refine Record.blamed_bind ?_ fun cost => Record.blamed_ok _
  exact Record.blamed_bind Record.blamed_cost fun c => Record.blamed_ok _

end Arm
end OpcodeDispatch

import OpcodeDispatch.Proofs.RecordText

/-!
Tables as they are written: what each opcode gets, and the text that says it, a chunk of three lines
for every record and every placeholder, and a blank line between any two of them.
-/

namespace OpcodeDispatch

/-! ### Chunks and their lines -/

inductive Chunk where
  | placeholder (p : PlaceholderText)
  | record (t : RecordText)

/-- How a table ends after the lines of its last chunk. -/
inductive Ending where
  /-- in a blank line, as any other chunk -/
  | blankLine
  /-- with the last of the lines -/
  | lineEnd
  /-- with the text of the last line, which nothing ends -/
  | unended
  deriving DecidableEq

def Ending.text : Ending → String
  | blankLine => "\n\n"
  | lineEnd => "\n"
  | unended => ""

namespace Chunk

def Valid : Chunk → Prop
  | placeholder p => p.Valid
  | record t => t.Valid

def head (padded : Bool) : Chunk → String
  | placeholder p => p.word
  | record t => t.head padded

def cycles : Chunk → String
  | placeholder p => p.cycles
  | record t => t.cycles

def flags : Chunk → String
  | placeholder p => p.flags
  | record t => t.flags

def text (padded : Bool) (k : Chunk) : String := k.head padded ++ "\n" ++ k.cycles ++ "\n" ++ k.flags

/-- The text of a table that is made of chunks. -/
def textOf (padded : Bool) (ending : Ending) : List Chunk → String
  | [] => ""
  | [k] => k.text padded ++ ending.text
  | k :: ks => k.text padded ++ "\n\n" ++ textOf padded ending ks

/-- Three lines that a chunk is read from: those of a placeholder are not looked at, but the first. -/
inductive Lines (padded : Bool) : Chunk → String → String → String → Prop
  | placeholder (p : PlaceholderText) (cycles flags : String) :
      Lines padded (.placeholder p) p.word cycles flags
  | record (t : RecordText) : Lines padded (.record t) (t.head padded) t.cycles t.flags

end Chunk

/-- The lines of a table that is made of chunks. Only after the last one no blank line is needed. -/
inductive Laid (padded : Bool) : List Chunk → List Line → Prop
  | blanks {ls : List Line} (h : ∀ l ∈ ls, l.isBlank = true) : Laid padded [] ls
  | last {k : Chunk} {head cycles flags : String} (hk : k.Lines padded head cycles flags) :
      Laid padded [k] [.text head, .text cycles, .text flags]
  | cons {k : Chunk} {ks : List Chunk} {head cycles flags blank : String} {ls : List Line}
      (hk : k.Lines padded head cycles flags) (hb : Text.isBlank blank = true) (h : Laid padded ks ls) :
      Laid padded (k :: ks) (.text head :: .text cycles :: .text flags :: .text blank :: ls)

namespace Chunk

variable {k : Chunk} (hk : k.Valid) (padded : Bool)

include hk

theorem Valid.newline_not_mem :
    '\n' ∉ (k.head padded).toList ∧ '\n' ∉ k.cycles.toList ∧ '\n' ∉ k.flags.toList := by
  cases k with
  | placeholder p => exact ⟨hk.isWord.newline_not_mem, hk.cycles_line, hk.flags_line⟩
  | record t =>
    exact ⟨RecordText.newline_not_mem_head hk padded, RecordText.newline_not_mem_cycles hk, hk.flags_line⟩

/-- A carriage return at the end of a line is lost with the line's end. -/
theorem Valid.lines : k.Lines padded (Text.dropReturn (k.head padded)) (Text.dropReturn k.cycles)
    (Text.dropReturn k.flags) := by
  cases k with
  | placeholder p =>
    have hword : Text.dropReturn p.word = p.word := Text.dropReturn_of_last hk.isWord.last
    simp only [head, hword]
    exact .placeholder p _ _
  | record t =>
    have ht : t.Valid := hk
    simp only [head, cycles, flags, RecordText.dropReturn_head ht, RecordText.dropReturn_cycles ht,
      RecordText.dropReturn_flags ht]
    exact .record t

theorem Valid.lines_unended :
    k.Lines padded (Text.dropReturn (k.head padded)) (Text.dropReturn k.cycles) k.flags := by
  cases k with
  | placeholder p =>
    have hword : Text.dropReturn p.word = p.word := Text.dropReturn_of_last hk.isWord.last
    simp only [head, hword]
    exact .placeholder p _ _
  | record t =>
    have ht : t.Valid := hk
    simp only [head, cycles, flags, RecordText.dropReturn_head ht, RecordText.dropReturn_cycles ht]
    exact .record t

theorem Valid.ofTable_text (rest : String) : Line.ofTable (bytesOfText (k.text padded ++ rest)) =
    .text (Text.dropReturn (k.head padded)) :: .text (Text.dropReturn k.cycles) ::
      Line.ofTable (bytesOfText (k.flags ++ rest)) := by
  obtain ⟨hhead, hcycles, -⟩ := hk.newline_not_mem padded
  have htext : k.text padded ++ rest =
      k.head padded ++ "\n" ++ (k.cycles ++ "\n" ++ (k.flags ++ rest)) := by
    simp only [text, String.append_assoc]
  rw [htext, Line.ofTable_text_cons hhead, Line.ofTable_text_cons hcycles]

end Chunk

theorem Line.ofTable_newline (rest : String) :
    ofTable (bytesOfText ("\n" ++ rest)) = .text "" :: ofTable (bytesOfText rest) := by
  have h := ofTable_text_cons (s := "") (by decide) rest
  rwa [String.empty_append] at h

theorem Line.ofTable_empty : ofTable (bytesOfText "") = [] := by decide

/-- What is written as chunks is read as their lines. -/
theorem laid_textOf {padded : Bool} {ending : Ending} {ks : List Chunk} (hks : ∀ k ∈ ks, k.Valid)
    (hend : ending = .unended → ∀ k ∈ ks, k.flags ≠ "") :
    Laid padded ks (Line.ofTable (bytesOfText (Chunk.textOf padded ending ks))) := by
  induction ks with
  | nil =>
    rw [Chunk.textOf, Line.ofTable_empty]
    exact .blanks fun l hl => by cases hl
  | cons k ks ih =>
    have hk := hks k (by simp)
    have hflags := (hk.newline_not_mem padded).2.2
    cases ks with
    | nil =>
      rw [Chunk.textOf, hk.ofTable_text]
      cases ending with
      | blankLine =>
        have htext : k.flags ++ Ending.blankLine.text = k.flags ++ "\n" ++ ("\n" ++ "") := by
          rw [String.append_assoc]
          rfl
        rw [htext, Line.ofTable_text_cons hflags, Line.ofTable_newline, Line.ofTable_empty]
        exact .cons (hk.lines padded) rfl (.blanks fun l hl => by cases hl)
      | lineEnd =>
        have htext : k.flags ++ Ending.lineEnd.text = k.flags ++ "\n" ++ "" := by
          rw [String.append_empty]
          rfl
        rw [htext, Line.ofTable_text_cons hflags, Line.ofTable_empty]
        exact .last (hk.lines padded)
      | unended =>
        rw [Ending.text, String.append_empty, Line.ofTable_text_unended hflags (hend rfl k (by simp))]
        exact .last (hk.lines_unended padded)
    | cons k' ks =>
      have htext : Chunk.textOf padded ending (k :: k' :: ks) =
          k.text padded ++ ("\n" ++ ("\n" ++ Chunk.textOf padded ending (k' :: ks))) := by
        have hblank : "\n\n" = "\n" ++ "\n" := by decide
        rw [Chunk.textOf, hblank, String.append_assoc, String.append_assoc]
        simp
      rw [htext, hk.ofTable_text, ← String.append_assoc, Line.ofTable_text_cons hflags, Line.ofTable_newline]
      exact .cons (hk.lines padded) rfl
        (ih (fun j hj => hks j (by simp [hj])) fun hu j hj => hend hu j (by simp [hj]))

/-! ### Sheets -/

structure Sheet where
  reserved : OpcodeSet
  /-- the record of an opcode that is not reserved -/
  record : Opcode → RecordText
  /-- the placeholder of a reserved opcode, if it has one -/
  placeholder? : Opcode → Option PlaceholderText
  padded : Bool
  ending : Ending

namespace Sheet

def chunk? (sheet : Sheet) (op : Opcode) : Option Chunk :=
  if op ∈ sheet.reserved then (sheet.placeholder? op).map .placeholder else some (.record (sheet.record op))

def chunks (sheet : Sheet) (ops : List Opcode) : List Chunk := ops.filterMap sheet.chunk?

/-- The chunks in the order of their opcodes. -/
def table (sheet : Sheet) : List UInt8 :=
  bytesOfText (Chunk.textOf sheet.padded sheet.ending (sheet.chunks Opcode.all))

/-- The line at which the record of an opcode begins: each chunk before it takes four. -/
def line (sheet : Sheet) (op : Opcode) : Nat := 4 * (sheet.chunks (Opcode.all.take op.val)).length + 1

/-- What a reader has to give for an opcode. -/
def slot (sheet : Sheet) (op : Opcode) : Slot :=
  if op ∈ sheet.reserved then .reserved else .record ((sheet.record op).record op (sheet.line op))

/-- No record passes for a placeholder. -/
def Unmarked (sheet : Sheet) : Prop :=
  ∀ op, op ∉ sheet.reserved → (sheet.record op).mnemonic ∉ Line.placeholders

/-- A sheet that can be read back. -/
structure Valid (sheet : Sheet) : Prop where
  record : ∀ op, op ∉ sheet.reserved → (sheet.record op).Valid
  placeholder : ∀ op ∈ sheet.reserved, ∀ p, sheet.placeholder? op = some p → p.Valid
  marked : (∀ op ∈ sheet.reserved, (sheet.placeholder? op).isSome) ∨ sheet.Unmarked
  /-- an empty line is one only if it is ended -/
  ending : sheet.ending = .unended → ∀ op ∈ sheet.reserved, ∀ p, sheet.placeholder? op = some p → p.flags ≠ ""

variable {sheet : Sheet} {op : Opcode}

theorem chunk?_record (h : op ∉ sheet.reserved) : sheet.chunk? op = some (.record (sheet.record op)) := if_neg h

theorem chunk?_reserved (h : op ∈ sheet.reserved) :
    sheet.chunk? op = (sheet.placeholder? op).map .placeholder := if_pos h

/-- Where a chunk comes from. -/
theorem mem_chunks {ops : List Opcode} {k : Chunk} (hk : k ∈ sheet.chunks ops) :
    (∃ op ∈ sheet.reserved, ∃ p, sheet.placeholder? op = some p ∧ k = .placeholder p) ∨
      ∃ op, op ∉ sheet.reserved ∧ k = .record (sheet.record op) := by
  obtain ⟨op, -, hop⟩ := List.mem_filterMap.1 hk
  by_cases h : op ∈ sheet.reserved
  · rw [chunk?_reserved h, Option.map_eq_some_iff] at hop
    obtain ⟨p, hp, rfl⟩ := hop
    exact .inl ⟨op, h, p, hp, rfl⟩
  · rw [chunk?_record h] at hop
    cases hop
    exact .inr ⟨op, h, rfl⟩

theorem Valid.chunk (h : sheet.Valid) {ops : List Opcode} : ∀ k ∈ sheet.chunks ops, k.Valid := by
  intro k hk
  rcases mem_chunks hk with ⟨op, hop, p, hp, rfl⟩ | ⟨op, hop, rfl⟩
  · exact h.placeholder op hop p hp
  · exact h.record op hop

theorem Valid.laid_table (h : sheet.Valid) :
    Laid sheet.padded (sheet.chunks Opcode.all) (Line.ofTable sheet.table) := by
  refine laid_textOf h.chunk fun hend k hk => ?_
  rcases mem_chunks hk with ⟨op, hop, p, hp, rfl⟩ | ⟨op, hop, rfl⟩
  · exact h.ending hend op hop p hp
  · exact (h.record op hop).flags_ne

end Sheet
end OpcodeDispatch

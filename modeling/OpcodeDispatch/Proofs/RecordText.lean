import OpcodeDispatch.Proofs.LineBytes
import OpcodeDispatch.Proofs.Words
import OpcodeDispatch.Table.Reader

/-!
The three lines in which a table holds a record, or a placeholder for the record that a reserved
opcode does not have, and what the reader makes of them.
-/

namespace OpcodeDispatch

namespace Text

theorem getLast?_append (s : String) {t : String} (ht : t ≠ "") :
    (s ++ t).toList.getLast? = t.toList.getLast? := by
  cases h : t.toList.getLast? with
  | none =>
    rw [List.getLast?_eq_none_iff] at h
    exact absurd (String.ext_iff.2 h) ht
  | some c => rw [String.toList_append, List.getLast?_append, h, Option.some_or]

theorem dropReturn_of_last {s : String} (h : ∀ c, s.toList.getLast? = some c → isSpace c = false) :
    dropReturn s = s := by
  refine dropReturn_of_ne fun hlast => ?_
  have := h _ hlast
  revert this
  decide

end Text

structure RecordText where
  mnemonic : String
  operands : String
  label : String
  cycleToken : String
  flags : String
  deriving DecidableEq

/-- What stands in the place of a record that a reserved opcode does not have. -/
structure PlaceholderText where
  word : String
  cycles : String
  flags : String
  deriving DecidableEq

namespace RecordText

/-- A record that can be read back. -/
structure Valid (t : RecordText) : Prop where
  mnemonic : Text.IsWord t.mnemonic
  mnemonic_upper : t.mnemonic.toList.any Char.isLower = false
  operands : Text.Trimmed t.operands
  operands_line : '\n' ∉ t.operands.toList
  label : Text.IsWord t.label
  cycleToken : Text.IsWord t.cycleToken
  flags : Text.Trimmed t.flags
  flags_ne : t.flags ≠ ""
  flags_line : '\n' ∉ t.flags.toList

/-- The first line. A mnemonic without operands is written with a blank after it or without. -/
def head (padded : Bool) (t : RecordText) : String :=
  if t.operands = "" ∧ padded = false then t.mnemonic else t.mnemonic ++ " " ++ t.operands

def cycles (t : RecordText) : String := t.label ++ "  " ++ t.cycleToken

def record (t : RecordText) (op : Opcode) (line : Nat) : Record :=
  ⟨op, line, t.mnemonic, t.operands, t.label, t.cycleToken, t.flags⟩

end RecordText

/-- The word is known, in whatever case, and every line is one line. -/
structure PlaceholderText.Valid (p : PlaceholderText) : Prop where
  word : Text.upper p.word ∈ Line.placeholders
  cycles_line : '\n' ∉ p.cycles.toList
  flags_line : '\n' ∉ p.flags.toList

namespace RecordText

theorem head_eq_append (padded : Bool) (t : RecordText) : ∃ s, t.head padded = t.mnemonic ++ s := by
  unfold head
  split
  · exact ⟨"", String.append_empty.symm⟩
  · exact ⟨" " ++ t.operands, String.append_assoc⟩

variable {t : RecordText} (ht : t.Valid) (padded : Bool)

include ht

theorem cut_head : Text.cutAtSpace (Text.trim (t.head padded)) = (t.mnemonic, t.operands) := by
  unfold head
  by_cases hne : t.operands = ""
  · cases padded with
    | false => rw [if_pos ⟨hne, rfl⟩, ht.mnemonic.trim, ht.mnemonic.cutAtSpace, hne]
    | true =>
      rw [if_neg (by simp), hne, String.append_empty, ht.mnemonic.trim_padded, ht.mnemonic.cutAtSpace]
  · rw [if_neg fun h => hne h.1, ht.mnemonic.trim_append ht.operands hne, ht.mnemonic.cutAtSpace_append]

theorem words_cycles : Text.words t.cycles = [t.label, t.cycleToken] := by
  have hlist : t.cycles = t.label ++ String.ofList (' ' :: (" " ++ t.cycleToken).toList) := by
    simp [String.ext_iff, cycles]
  have hblank : Text.words (" " ++ t.cycleToken) = Text.words t.cycleToken := by
    have hspace : Text.isSpace ' ' = true := by decide
    simp [Text.words, List.splitOnP_cons_eq_if_modifyHead, hspace]
  rw [hlist, ht.label.words_append (by decide), hblank, ht.cycleToken.words]

/-- The reader makes of the lines what they were written from. -/
theorem ofLines_eq (op : Opcode) (line : Nat) :
    Record.ofLines op line (t.head padded) t.cycles t.flags = t.record op line := by
  have hmnemonic := Text.upper_eq_self ht.mnemonic_upper
  have hoperands : Text.trim t.operands = t.operands := ht.operands
  have hflags : Text.trim t.flags = t.flags := ht.flags
  simp only [Record.ofLines, cut_head ht, words_cycles ht, hmnemonic, hoperands, hflags]
  rfl

theorem head_not_blank : Text.isBlank (t.head padded) = false := by
  obtain ⟨s, hs⟩ := head_eq_append padded t
  rw [hs]
  exact ht.mnemonic.not_isBlank s

theorem firstWord_head : (Text.words (t.head padded)).head? = some t.mnemonic := by
  unfold head
  split
  · rw [ht.mnemonic.words]
    rfl
  · have hlist : t.mnemonic ++ " " ++ t.operands = t.mnemonic ++ String.ofList (' ' :: t.operands.toList) := by
      simp [String.ext_iff]
    rw [hlist, ht.mnemonic.words_append (by decide)]
    rfl

theorem dropReturn_head : Text.dropReturn (t.head padded) = t.head padded := by
  unfold head
  by_cases hne : t.operands = ""
  · cases padded with
    | false =>
      rw [if_pos ⟨hne, rfl⟩]
      exact Text.dropReturn_of_last ht.mnemonic.last
    | true =>
      rw [if_neg (by simp), hne, String.append_empty]
      exact Text.dropReturn_of_ne (by rw [Text.getLast?_append _ (by decide)]; decide)
  · rw [if_neg fun h => hne h.1]
    refine Text.dropReturn_of_last ?_
    rw [Text.getLast?_append _ hne]
    exact Text.last_of_trimRight ht.operands.ends.2

theorem dropReturn_cycles : Text.dropReturn t.cycles = t.cycles := by
  refine Text.dropReturn_of_last ?_
  rw [cycles, Text.getLast?_append _ ht.cycleToken.1]
  exact ht.cycleToken.last

theorem dropReturn_flags : Text.dropReturn t.flags = t.flags :=
  Text.dropReturn_of_last (Text.last_of_trimRight ht.flags.ends.2)

theorem newline_not_mem_head : '\n' ∉ (t.head padded).toList := by
  unfold head
  split
  · exact ht.mnemonic.newline_not_mem
  · simp [ht.mnemonic.newline_not_mem, ht.operands_line]

theorem newline_not_mem_cycles : '\n' ∉ t.cycles.toList := by
  simp [cycles, ht.label.newline_not_mem, ht.cycleToken.newline_not_mem]

end RecordText

theorem PlaceholderText.Valid.isWord {p : PlaceholderText} (hp : p.Valid) : Text.IsWord p.word := by
  constructor
  · intro h
    have hword := hp.word
    rw [h] at hword
    revert hword
    decide
  · intro c hc
    cases hspace : Text.isSpace c with
    | false => rfl
    | true =>
      have hupper : c.toUpper ∈ (Text.upper p.word).toList := by
        rw [Text.upper, String.toList_ofList]
        exact List.mem_map_of_mem hc
      have hall : ∀ w ∈ Line.placeholders, w.toList.any Text.isSpace = false := by decide
      have := List.any_eq_false.1 (hall _ hp.word) _ hupper
      rw [Text.toUpper_of_isSpace hspace] at this
      exact absurd hspace this

end OpcodeDispatch

import OpcodeDispatch.Proofs.Reading
import OpcodeDispatch.Proofs.Sheet

/-!
Reading undoes writing: a strict reader gives every opcode of a sheet its own record, whichever of
the reserved opcodes have a placeholder. A placeholder may be passed before its own opcode has come,
at a reserved opcode without one, but no record ever is.
-/

namespace OpcodeDispatch

/-! ### Reading chunks -/

namespace Chunk

/-- A reader at a reserved opcode takes the chunk for a placeholder. -/
def isMarked : Chunk → Bool
  | placeholder _ => true
  | record t => Line.placeholders.contains t.mnemonic

variable {padded : Bool} {k : Chunk} {head cycles flags : String}

theorem Lines.firstWord (h : k.Lines padded head cycles flags) (hk : k.Valid) :
    ∃ w, (Text.words head).head? = some w ∧ Line.placeholders.contains (Text.upper w) = k.isMarked := by
  cases h with
  | placeholder p =>
    have hp : p.Valid := hk
    rw [hp.isWord.words]
    exact ⟨p.word, rfl, List.contains_iff_mem.2 hp.word⟩
  | record t =>
    have ht : t.Valid := hk
    refine ⟨t.mnemonic, RecordText.firstWord_head ht padded, ?_⟩
    rw [Text.upper_eq_self ht.mnemonic_upper]
    rfl

theorem Lines.head_not_blank (h : k.Lines padded head cycles flags) (hk : k.Valid) :
    Text.isBlank head = false := by
  cases hb : Text.isBlank head with
  | false => rfl
  | true =>
    obtain ⟨w, hw, -⟩ := h.firstWord hk
    rw [Text.words_of_isBlank hb] at hw
    cases hw

end Chunk

namespace Laid

variable {padded : Bool} {k : Chunk} {ks : List Chunk} {ls : List Line}

theorem atPlaceholder (h : Laid padded ks ls) (hks : ∀ k ∈ ks, k.Valid) (n : Nat) :
    Cursor.atPlaceholder ⟨ls, n⟩ = ks.head?.any Chunk.isMarked := by
  have hchunk : ∀ {k : Chunk} {head cycles flags : String} {rest : List Line},
      k.Lines padded head cycles flags → k.Valid →
      Cursor.atPlaceholder ⟨.text head :: rest, n⟩ = k.isMarked := by
    intro k head cycles flags rest hl hk
    obtain ⟨w, hw, hmarked⟩ := hl.firstWord hk
    rw [Cursor.atPlaceholder_text, hw]
    exact hmarked
  cases h with
  | blanks hb =>
    cases ls with
    | nil => rfl
    | cons l ls =>
      cases l with
      | text s =>
        rw [Cursor.atPlaceholder_text, Text.words_of_isBlank (hb (.text s) (by simp))]
        rfl
      | unreadable cause => rfl
  | last hl => exact hchunk hl (hks _ (by simp))
  | cons hl hb h => exact hchunk hl (hks _ (by simp))

/-- The next chunk is read, and the others are left. -/
theorem record? (h : Laid padded (k :: ks) ls) (hk : k.Valid) (op : Opcode) (n : Nat) :
    ∃ head cycles flags c, k.Lines padded head cycles flags ∧
      Cursor.record? op ⟨ls, n⟩ = .ok (some (Record.ofLines op (n + 1) head cycles flags), c) ∧
      Laid padded ks c.rest ∧ (ks ≠ [] → c.passed = n + 4) := by
  cases h with
  | last hl =>
    exact ⟨_, _, _, _, hl, Cursor.record?_last (hl.head_not_blank hk), .blanks (by simp),
      fun hne => absurd rfl hne⟩
  | cons hl hb h =>
    exact ⟨_, _, _, _, hl, Cursor.record?_separated (hl.head_not_blank hk) hb, h, fun _ => rfl⟩

end Laid

/-! ### Reading a sheet -/

namespace Sheet

variable {sheet : Sheet} {op : Opcode} {ops : List Opcode} {early left : List Chunk} {c : Cursor}

/-- What is left of a sheet's lines when some opcodes have no entry yet: their chunks, except that
placeholders may have been passed early. -/
structure Pending (sheet : Sheet) (ops : List Opcode) (early left : List Chunk) (c : Cursor) : Prop where
  chunks : sheet.chunks ops = early ++ left
  early_placeholder : ∀ k ∈ early, ∃ p, k = .placeholder p
  unmarked : early ≠ [] → sheet.Unmarked
  laid : Laid sheet.padded left c.rest
  passed : left ≠ [] → c.passed + 4 * left.length = 4 * (sheet.chunks Opcode.all).length

theorem Pending.valid (h : sheet.Pending ops early left c) (hs : sheet.Valid) : ∀ k ∈ left, k.Valid := by
  intro k hk
  have hmem : k ∈ sheet.chunks ops := by
    rw [h.chunks]
    exact List.mem_append_right _ hk
  exact hs.chunk k hmem

/-- A placeholder that comes next is taken at any reserved opcode. -/
theorem Pending.take {p : PlaceholderText} (h : sheet.Pending ops early (.placeholder p :: left) c)
    (hs : sheet.Valid) (hop : op ∈ sheet.reserved) (ph : Phase) :
    ∃ c', TableReader.slot? ⟨c, ph, sheet.reserved, false⟩ op = .ok (some .reserved, c') ∧
      Laid sheet.padded left c'.rest ∧
      (left ≠ [] → c'.passed + 4 * left.length = 4 * (sheet.chunks Opcode.all).length) := by
  have hp := h.laid.atPlaceholder (h.valid hs) c.passed
  obtain ⟨head, cycles, flags, c', -, hread, hlaid, hpassed⟩ :=
    h.laid.record? (h.valid hs _ (by simp)) op c.passed
  refine ⟨c', ?_, hlaid, fun hne => ?_⟩
  · rw [TableReader.slot?_placeholder hop hp]
    exact congrArg (Except.map _) hread
  · have := h.passed (by simp)
    rw [List.length_cons] at this
    rw [hpassed hne]
    omega

/-- Nothing but a placeholder is passed at a reserved opcode that has no chunk of its own. -/
theorem Pending.idle (h : sheet.Pending ops early left c) (hs : sheet.Valid) (hu : sheet.Unmarked)
    (hop : op ∈ sheet.reserved) (ph : Phase) :
    ∃ c' early' left', TableReader.slot? ⟨c, ph, sheet.reserved, false⟩ op = .ok (some .reserved, c') ∧
      sheet.Pending ops early' left' c' := by
  have hp := h.laid.atPlaceholder (h.valid hs) c.passed
  cases left with
  | nil => exact ⟨c, early, [], TableReader.slot?_absent hop hp, h⟩
  | cons k left =>
    cases k with
    | placeholder p =>
      obtain ⟨c', hslot, hlaid, hpassed⟩ := h.take hs hop ph
      refine ⟨c', early ++ [.placeholder p], left, hslot, ?_, ?_, fun _ => hu, hlaid, hpassed⟩
      · rw [h.chunks, List.append_assoc, List.singleton_append]
      · intro k hk
        rcases List.mem_append.1 hk with hk | hk
        · exact h.early_placeholder k hk
        · exact ⟨p, List.mem_singleton.1 hk⟩
    | record t =>
      refine ⟨c, early, .record t :: left, TableReader.slot?_absent hop ?_, h⟩
      have hmem : .record t ∈ sheet.chunks ops := by simp [h.chunks]
      rcases mem_chunks hmem with ⟨op', hop', p, hp', ht⟩ | ⟨op', hop', ht⟩
      · cases ht
      · cases ht
        refine hp.trans ?_
        simpa [Chunk.isMarked] using hu op' hop'

theorem chunks_cons_some {k : Chunk} (h : sheet.chunk? op = some k) :
    sheet.chunks (op :: ops) = k :: sheet.chunks ops := List.filterMap_cons_some h

theorem chunks_cons_none (h : sheet.chunk? op = none) : sheet.chunks (op :: ops) = sheet.chunks ops :=
  List.filterMap_cons_none h

theorem length_chunks_drop (op : Opcode) : (sheet.chunks (Opcode.all.take op.val)).length +
    (sheet.chunks (Opcode.all.drop op.val)).length = (sheet.chunks Opcode.all).length := by
  rw [chunks, chunks, ← List.length_append, ← List.filterMap_append, List.take_append_drop]
  rfl

theorem Pending.step_reserved (h : sheet.Pending (op :: ops) early left c) (hs : sheet.Valid)
    (hop : op ∈ sheet.reserved) (ph : Phase) :
    ∃ c' early' left', TableReader.slot? ⟨c, ph, sheet.reserved, false⟩ op = .ok (some .reserved, c') ∧
      sheet.Pending ops early' left' c' := by
  have hchunks := h.chunks
  cases hp : sheet.placeholder? op with
  | none =>
    -- the opcode has no chunk, so this is a sheet whose records cannot be taken for placeholders
    have hu : sheet.Unmarked := by
      rcases hs.marked with hall | hu
      · have := hall op hop
        rw [hp] at this
        cases this
      · exact hu
    rw [chunks_cons_none (by rw [chunk?_reserved hop, hp]; rfl)] at hchunks
    exact Pending.idle { h with chunks := hchunks } hs hu hop ph
  | some p =>
    rw [chunks_cons_some (by rw [chunk?_reserved hop, hp]; rfl)] at hchunks
    cases early with
    | nil =>
      obtain rfl : left = .placeholder p :: sheet.chunks ops := hchunks.symm
      obtain ⟨c', hslot, hlaid, hpassed⟩ := h.take hs hop ph
      exact ⟨c', [], sheet.chunks ops, hslot, rfl, by simp, fun hne => absurd rfl hne, hlaid, hpassed⟩
    | cons k early =>
      obtain ⟨-, hchunks⟩ := List.cons.inj hchunks
      refine Pending.idle ⟨hchunks, ?_, ?_, h.laid, h.passed⟩ hs (h.unmarked (by simp)) hop ph
      · exact fun k hk => h.early_placeholder k (by simp [hk])
      · exact fun _ => h.unmarked (by simp)

theorem Pending.step_record (h : sheet.Pending (op :: ops) early left c) (hs : sheet.Valid)
    (hop : op ∉ sheet.reserved) (hops : op :: ops = Opcode.all.drop op.val) (ph : Phase) :
    ∃ c', TableReader.slot? ⟨c, ph, sheet.reserved, false⟩ op = .ok (some (sheet.slot op), c') ∧
      sheet.Pending ops [] (sheet.chunks ops) c' := by
  have hchunks := h.chunks
  rw [chunks_cons_some (chunk?_record hop)] at hchunks
  have hearly : early = [] := by
    cases early with
    | nil => rfl
    | cons k early =>
      obtain ⟨hk, -⟩ := List.cons.inj hchunks
      obtain ⟨p, hp⟩ := h.early_placeholder k (by simp)
      rw [hp] at hk
      cases hk
  subst hearly
  obtain rfl : left = .record (sheet.record op) :: sheet.chunks ops := hchunks.symm
  obtain ⟨head, cycles, flags, c', hlines, hread, hlaid, hpassed⟩ :=
    h.laid.record? (hs.record op hop) op c.passed
  have htotal := h.passed (by simp)
  have hsplit := sheet.length_chunks_drop op
  rw [← hops, chunks_cons_some (chunk?_record hop)] at hsplit
  rw [← hsplit, List.length_cons] at htotal
  refine ⟨c', ?_, rfl, by simp, fun hne => absurd rfl hne, hlaid, fun hne => ?_⟩
  · have hline : c.passed + 1 = sheet.line op := by
      rw [line]
      omega
    cases hlines with
    | record t =>
      rw [RecordText.ofLines_eq (hs.record op hop), hline] at hread
      rw [TableReader.slot?_record hop, slot, if_neg hop]
      exact congrArg (Except.map _) hread
  · rw [hpassed hne, ← hsplit, List.length_cons]
    omega

theorem Pending.step (h : sheet.Pending (op :: ops) early left c) (hs : sheet.Valid)
    (hops : op :: ops = Opcode.all.drop op.val) (ph : Phase) :
    ∃ c' early' left', TableReader.slot? ⟨c, ph, sheet.reserved, false⟩ op = .ok (some (sheet.slot op), c') ∧
      sheet.Pending ops early' left' c' := by
  by_cases hop : op ∈ sheet.reserved
  · rw [slot, if_pos hop]
    exact h.step_reserved hs hop ph
  · obtain ⟨c', hslot, hpending⟩ := h.step_record hs hop hops ph
    exact ⟨c', [], sheet.chunks ops, hslot, hpending⟩

theorem Pending.answers (hs : sheet.Valid) {n : Nat} {ph : Phase} (hph : ph ≠ .done)
    (h : sheet.Pending ph.opcodes early left c) (hn : ph.opcodes.length < n) :
    TableReader.answers n ⟨c, ph, sheet.reserved, false⟩ =
      ph.opcodes.map fun op => .ok ⟨op, sheet.slot op⟩ := by
  induction n generalizing ph early left c with
  | zero => exact absurd hn (Nat.not_lt_zero _)
  | succ n ih =>
    rw [TableReader.answers_succ]
    cases ph with
    | entry op =>
      rw [Phase.opcodes_entry] at h hn ⊢
      obtain ⟨c', early', left', hslot, hpending⟩ := h.step hs (Phase.opcodes_entry op).symm (.entry op)
      rw [TableReader.step_entry rfl, hslot]
      exact congrArg (_ :: ·) (ih (Phase.after_ne_done op) hpending (Nat.lt_of_succ_lt_succ hn))
    | full =>
      obtain ⟨-, rfl⟩ := List.append_eq_nil_iff.1 h.chunks.symm
      have hblank : Cursor.nonBlank? c = .ok (none, c.skipBlanks) := by
        cases h.laid with
        | blanks hb => exact Cursor.nonBlank?_blanks hb
      rw [TableReader.step_full rfl, hblank]
      rfl
    | done => exact absurd rfl hph

/-- Reading undoes writing. -/
theorem all_table (sheet : Sheet) (hs : sheet.Valid) :
    (TableReader.ofTable sheet.table sheet.reserved false).all =
      Opcode.all.map fun op => .ok ⟨op, sheet.slot op⟩ := by
  have hops : (Phase.entry .first).opcodes = Opcode.all := by
    have hfirst : Opcode.first.val = 0 := rfl
    rw [Phase.opcodes, hfirst, List.drop_zero]
  have h : sheet.Pending (Phase.entry .first).opcodes [] (sheet.chunks Opcode.all)
      ⟨Line.ofTable sheet.table, 0⟩ := by
    rw [hops]
    exact ⟨rfl, by simp, fun hne => absurd rfl hne, hs.laid_table, fun _ => Nat.zero_add _⟩
  have hlength : (Phase.entry .first).opcodes.length < (Phase.entry .first).left := by
    rw [hops, Opcode.all, List.length_finRange]
    decide
  rw [← hops]
  exact h.answers hs (by simp) hlength

/-- Two instructions, two reserved opcodes in a row, and a placeholder for the second of them alone. -/
def sample : Sheet where
  reserved := OpcodeSet.ofList [0xdc, 0xdd]
  record op :=
    if op = 0 then ⟨"NOP", "", "1", "4", "- - - -"⟩ else ⟨"ADD", "A, d8", "2", "8", "Z 0 H C"⟩
  placeholder? op := if op = 0xdd then some ⟨"illegal", "", ""⟩ else none
  padded := false
  ending := .lineEnd

theorem valid_sample : sample.Valid where
  record op _ := by
    simp only [sample]
    split
    · constructor <;> decide
    · constructor <;> decide
  placeholder op _ p hp := by
    simp only [sample] at hp
    split at hp <;> cases hp
    constructor <;> decide
  marked := by
    refine .inr fun op _ => ?_
    simp only [sample]
    split <;> decide
  ending h := by cases h

theorem all_table_sample : sample.Valid ∧ (TableReader.ofTable sample.table sample.reserved false).all =
    Opcode.all.map fun op => .ok ⟨op, sample.slot op⟩ :=
  ⟨valid_sample, all_table sample valid_sample⟩

end Sheet
end OpcodeDispatch

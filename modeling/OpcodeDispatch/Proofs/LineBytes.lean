import OpcodeDispatch.Table.Line

/-!
The lines of a table that is given as text. The byte of an ASCII character is part of no other
character, so the lines of the bytes are the lines of the text.
-/

namespace OpcodeDispatch

/-! ### Bytes of text -/

theorem bytesOfText_eq (s : String) : bytesOfText s = s.toList.flatMap String.utf8EncodeChar := by
  rw [bytesOfText, String.toUTF8_eq_toByteArray, ← String.utf8Encode_toList, List.utf8Encode,
    List.toList_data_toByteArray]

theorem bytesOfText_append (s t : String) : bytesOfText (s ++ t) = bytesOfText s ++ bytesOfText t := by
  rw [bytesOfText_eq, String.toList_append, List.flatMap_append, ← bytesOfText_eq, ← bytesOfText_eq]

theorem bytesOfText_newline : bytesOfText "\n" = [10] := by decide

theorem bytesOfText_eq_nil {s : String} : bytesOfText s = [] ↔ s = "" := by
  rw [bytesOfText_eq, List.flatMap_eq_nil_iff, String.ext_iff, String.toList_empty]
  constructor
  · intro h
    cases hs : s.toList with
    | nil => rfl
    | cons c cs => exact absurd (h c (by simp [hs])) String.utf8EncodeChar_ne_nil
  · intro h c hc
    rw [h] at hc
    cases hc

section

variable {c : Char} {b : UInt8}

theorem utf8EncodeChar_of_lt (h : c.toNat < 128) : String.utf8EncodeChar c = [UInt8.ofNat c.toNat] := by
  have hc : c.val.toNat ≤ 127 := Nat.le_of_lt_succ h
  simp only [String.utf8EncodeChar, hc, if_true]
  rfl

theorem le_of_mem_utf8EncodeChar (h : 128 ≤ c.toNat) (hb : b ∈ String.utf8EncodeChar c) : 128 ≤ b.toNat := by
  have hc : ¬ c.val.toNat ≤ 127 := Nat.not_le_of_gt h
  have hbyte : ∀ n m k, b = UInt8.ofNat (n % m + k) → 128 ≤ k → m + k ≤ 256 → 0 < m → 128 ≤ b.toNat := by
    intro n m k hb hk hmk hm
    have hlt := Nat.mod_lt n hm
    rw [hb, UInt8.toNat_ofNat_of_lt' (by simp only [UInt8.size]; omega)]
    omega
  simp only [String.utf8EncodeChar, hc, if_false] at hb
  split at hb
  · simp only [List.mem_cons, List.not_mem_nil, or_false] at hb
    rcases hb with hb | hb <;> exact hbyte _ _ _ hb (by decide) (by decide) (by decide)
  · split at hb
    · simp only [List.mem_cons, List.not_mem_nil, or_false] at hb
      rcases hb with hb | hb | hb <;> exact hbyte _ _ _ hb (by decide) (by decide) (by decide)
    · simp only [List.mem_cons, List.not_mem_nil, or_false] at hb
      rcases hb with hb | hb | hb | hb <;> exact hbyte _ _ _ hb (by decide) (by decide) (by decide)

/-- A byte below 128 in the bytes of a character is all of it. -/
theorem utf8EncodeChar_of_mem (hb : b.toNat < 128) (h : b ∈ String.utf8EncodeChar c) :
    c = Char.ofNat b.toNat ∧ String.utf8EncodeChar c = [b] := by
  by_cases hc : c.toNat < 128
  · rw [utf8EncodeChar_of_lt hc] at h ⊢
    have hbc := List.mem_singleton.1 h
    have hnat : b.toNat = c.toNat := by
      rw [hbc, UInt8.toNat_ofNat_of_lt' (by simp only [UInt8.size]; omega)]
    rw [hnat, Char.ofNat_toNat, ← hbc]
    exact ⟨rfl, rfl⟩
  · have := le_of_mem_utf8EncodeChar (Nat.le_of_not_lt hc) h
    omega

end

theorem newline_not_mem_bytesOfText {s : String} (h : '\n' ∉ s.toList) : (10 : UInt8) ∉ bytesOfText s := by
  rw [bytesOfText_eq]
  intro hmem
  obtain ⟨c, hc, hb⟩ := List.mem_flatMap.1 hmem
  obtain ⟨rfl, -⟩ := utf8EncodeChar_of_mem (by decide) hb
  exact h hc

theorem newline_not_mem_of_bytes {s : String} (h : (10 : UInt8) ∉ bytesOfText s) : '\n' ∉ s.toList := by
  intro hs
  refine h ?_
  rw [bytesOfText_eq, List.mem_flatMap]
  exact ⟨'\n', hs, by decide⟩

/-- A piece between separators is part of the whole and holds no separator. -/
theorem piece_of_mem_splitOn [BEq α] [LawfulBEq α] {a : α} {xs piece : List α} (h : piece ∈ xs.splitOn a) :
    a ∉ piece ∧ piece ⊆ xs := by
  induction xs generalizing piece with
  | nil => simp_all
  | cons x xs ih =>
    rw [List.splitOn_cons_eq_if_modifyHead] at h
    split at h
    · rcases List.mem_cons.1 h with rfl | h
      · simp
      · exact ⟨(ih h).1, List.subset_cons_of_subset x (ih h).2⟩
    · next hx =>
      obtain ⟨first, rest, hsplit⟩ := List.exists_cons_of_ne_nil (List.splitOn_ne_nil a xs)
      rw [hsplit, List.modifyHead_cons] at h
      rcases List.mem_cons.1 h with rfl | h
      · obtain ⟨hfirst, hsub⟩ : a ∉ first ∧ first ⊆ xs := ih (by simp [hsplit])
        have hne : a ≠ x := fun he => hx (by simp [he])
        exact ⟨by simp [hne, hfirst], List.cons_subset_cons x hsub⟩
      · have hpiece := ih (hsplit ▸ List.mem_cons_of_mem first h)
        exact ⟨hpiece.1, List.subset_cons_of_subset x hpiece.2⟩

namespace Text

/-- The text without one carriage return at its end. -/
def dropReturn (s : String) : String :=
  if s.toList.getLast? = some '\r' then String.ofList s.toList.dropLast else s

theorem dropReturn_of_ne {s : String} (h : s.toList.getLast? ≠ some '\r') : dropReturn s = s := if_neg h

end Text

/-! ### Lines of text -/

namespace Line

theorem ofBytes_bytesOfText (s : String) : ofBytes (bytesOfText s) = text s := by
  have hs : (⟨(bytesOfText s).toArray⟩ : ByteArray) = s.toByteArray := by
    rw [bytesOfText, Array.toArray_toList]
    rfl
  rw [ofBytes, hs, String.fromUTF8?, dif_pos s.isValidUTF8]
  rfl

theorem dropReturn_bytesOfText (s : String) :
    dropReturn (bytesOfText s) = bytesOfText (Text.dropReturn s) := by
  rcases List.eq_nil_or_concat s.toList with hs | ⟨init, c, hs⟩
  · rw [Text.dropReturn_of_ne (by simp [hs]), bytesOfText_eq, hs]
    rfl
  · rw [List.concat_eq_append] at hs
    have hbytes : bytesOfText s = init.flatMap String.utf8EncodeChar ++ String.utf8EncodeChar c := by
      rw [bytesOfText_eq, hs, List.flatMap_append, List.flatMap_singleton]
    by_cases hc : c = '\r'
    · subst hc
      rw [Text.dropReturn, if_pos (by simp [hs]), dropReturn, hbytes, bytesOfText_eq, hs]
      simp [show String.utf8EncodeChar '\r' = [13] by decide]
    · rw [Text.dropReturn_of_ne (by simp [hs, hc]), dropReturn, if_neg]
      rw [hbytes, List.getLast?_append]
      intro hlast
      have hmem : (13 : UInt8) ∈ String.utf8EncodeChar c := by
        cases h : (String.utf8EncodeChar c).getLast? with
        | none => exact absurd (List.getLast?_eq_none_iff.1 h) String.utf8EncodeChar_ne_nil
        | some b =>
          rw [h, Option.some_or] at hlast
          rw [← Option.some.inj hlast]
          exact List.mem_of_getLast? h
      exact hc (utf8EncodeChar_of_mem (by decide) hmem).1

/-- A line that is ended, without the line feed and one carriage return before it. -/
theorem ofTable_ended {bytes : List UInt8} (h : 10 ∉ bytes) :
    ofTable (bytes ++ [10]) = [ofBytes (dropReturn bytes)] := by
  have hpieces : (bytes ++ [10]).splitOn 10 = [bytes, []] := by
    rw [List.splitOn_append_cons_self_of_not_mem h]
    rfl
  simp [ofTable, hpieces, unfinished]

theorem ofTable_text_cons {s : String} (h : '\n' ∉ s.toList) (t : String) :
    ofTable (bytesOfText (s ++ "\n" ++ t)) = text (Text.dropReturn s) :: ofTable (bytesOfText t) := by
  have hline : ofTable (bytesOfText s ++ [10]) = [text (Text.dropReturn s)] := by
    rw [ofTable_ended (newline_not_mem_bytesOfText h), dropReturn_bytesOfText, ofBytes_bytesOfText]
  rw [bytesOfText_append, bytesOfText_append, bytesOfText_newline, List.append_assoc,
    List.singleton_append, ofTable_append, hline, List.singleton_append]

/-- The last line of a text need not be ended. -/
theorem ofTable_text_unended {s : String} (h : '\n' ∉ s.toList) (hs : s ≠ "") :
    ofTable (bytesOfText s) = [text s] := by
  have hpieces := List.splitOn_eq_singleton (newline_not_mem_bytesOfText h)
  have hne : bytesOfText s ≠ [] := fun hnil => hs (bytesOfText_eq_nil.1 hnil)
  rw [ofTable, hpieces, List.dropLast_singleton, List.map_nil, List.nil_append, List.getLastD_cons,
    List.getLastD_nil]
  rw [← ofBytes_bytesOfText]
  generalize bytesOfText s = bytes at hne
  cases bytes with
  | nil => exact absurd rfl hne
  | cons b bytes => rfl

/-! ### Lines of bytes -/

theorem ofBytes_eq_text {bytes : List UInt8} {s : String} (h : ofBytes bytes = text s) : bytes = bytesOfText s := by
  unfold ofBytes at h
  split at h
  · next t ht =>
    cases h
    unfold String.fromUTF8? at ht
    split at ht
    · cases ht
      simp [bytesOfText, String.fromUTF8]
    · cases ht
  · cases h

theorem text_of_dropReturn {bytes : List UInt8} {s : String} (h : dropReturn bytes = bytesOfText s) :
    ∃ t, bytes = bytesOfText t := by
  unfold dropReturn at h
  split at h
  · next hlast =>
    obtain ⟨init, rfl⟩ := List.getLast?_eq_some_iff.1 hlast
    have hreturn : bytesOfText "\r" = [13] := by decide
    refine ⟨s ++ "\r", ?_⟩
    rw [bytesOfText_append, ← h, hreturn, List.dropLast_concat]
  · exact ⟨s, h⟩

/-- A line that is text is one line, whatever the bytes of the table are. -/
theorem newline_not_mem_of_mem_ofTable {table : List UInt8} {s : String} (h : text s ∈ ofTable table) :
    '\n' ∉ s.toList := by
  have hpiece : ∃ piece ∈ table.splitOn 10, ∀ b ∈ bytesOfText s, b ∈ piece := by
    rcases List.mem_append.1 h with h | h
    · obtain ⟨piece, hmem, hs⟩ := List.mem_map.1 h
      refine ⟨piece, List.dropLast_subset _ hmem, fun b hb => ?_⟩
      rw [← ofBytes_eq_text hs, dropReturn] at hb
      split at hb
      · exact List.dropLast_subset _ hb
      · exact hb
    · refine ⟨(table.splitOn 10).getLastD [], ?_, fun b hb => ?_⟩
      · rw [List.getLastD_eq_getLast?, List.getLast?_eq_some_getLast (List.splitOn_ne_nil 10 table)]
        exact List.getLast_mem _
      · generalize (table.splitOn 10).getLastD [] = piece at h
        cases piece with
        | nil => cases h
        | cons c piece =>
          rw [ofBytes_eq_text (List.mem_singleton.1 h).symm]
          exact hb
  obtain ⟨piece, hmem, hsub⟩ := hpiece
  exact newline_not_mem_of_bytes fun h10 => (piece_of_mem_splitOn hmem).1 (hsub _ h10)

end Line
end OpcodeDispatch

import Mathlib
import OpcodeDispatch.Listing.Tally
import OpcodeDispatch.Proofs.Agreement

/-!
What a tally counts. Each opcode of a listing is counted once, as reserved or under the name of its
family, so a tally depends on no order of the listing, and it exists if and only if the sum of each
family fits in 32 bits. Beside a run over the same table, the totals of the two are the same.
-/

namespace OpcodeDispatch

/-! ### Figures of an opcode -/

namespace ListedOpcode

/-- The machine cycles of an opcode when no branch is taken. -/
def notTaken (e : ListedOpcode) : Nat :=
  match e.cycles with
  | none => 0
  | some (.fixed n) => n.toNat
  | some (.conditional _ n) => n.toNat

/-- The opcode has two costs. -/
def twoCosts (e : ListedOpcode) : Bool :=
  match e.cycles with
  | some (.conditional _ _) => true
  | _ => false

section

variable (e : ListedOpcode)

theorem notTaken_none (h : e.cycles = none) : e.notTaken = 0 := by rw [notTaken, h]

theorem twoCosts_none (h : e.cycles = none) : e.twoCosts = false := by rw [twoCosts, h]

theorem notTaken_some {cost : CycleCost} (h : e.cycles = some cost) : e.notTaken = cost.base.toNat := by
  rw [notTaken, h]
  cases cost <;> rfl

theorem twoCosts_some {cost : CycleCost} (h : e.cycles = some cost) : e.twoCosts = cost.isConditional := by
  rw [twoCosts, h]
  cases cost <;> rfl

end

end ListedOpcode

namespace FamilyTally

variable {ts : List FamilyTally} {t u v : FamilyTally} {name : String} {e : ListedOpcode} {m n k : UInt32}

theorem sum?_eq_some : sum? m n = some k ↔ k.toNat = m.toNat + n.toNat := by
  have hk := k.toNat_lt_size
  have hsum : m.toNat + n.toNat < UInt32.size → (m + n).toNat = m.toNat + n.toNat := fun h => by
    rw [UInt32.toNat_add]
    exact Nat.mod_eq_of_lt h
  rw [sum?]
  split
  · next hlt =>
    rw [← hsum hlt, Option.some.injEq, UInt32.toNat_inj, eq_comm]
  · next hge => exact iff_of_false nofun (by omega)

/-- `u` counts one opcode more than `t`. -/
structure Adds (t : FamilyTally) (e : ListedOpcode) (u : FamilyTally) : Prop where
  family : u.family = t.family
  count : u.count = t.count + 1
  conditional : u.conditional = t.conditional + e.twoCosts.toNat
  cycles : u.cycles.toNat = t.cycles.toNat + e.notTaken

theorem adds_of_add? (h : t.add? e.cycles = some u) : t.Adds e u := by
  cases hc : e.cycles with
  | none =>
    rw [hc] at h
    cases h
    exact ⟨rfl, rfl, by rw [e.twoCosts_none hc]; rfl, by rw [e.notTaken_none hc]; rfl⟩
  | some cost =>
    rw [hc] at h
    obtain ⟨cycles, hcycles, rfl⟩ := Option.map_eq_some_iff.1 h
    exact ⟨rfl, rfl, by rw [e.twoCosts_some hc], by rw [e.notTaken_some hc, ← sum?_eq_some.1 hcycles]⟩

theorem exists_adds (h : t.cycles.toNat + e.notTaken < UInt32.size) : ∃ u, t.add? e.cycles = some u := by
  cases hc : e.cycles with
  | none => exact ⟨_, rfl⟩
  | some cost =>
    rw [e.notTaken_some hc] at h
    exact ⟨_, by rw [add?, sum?, if_pos h]; rfl⟩

/-! ### Counting under a name -/

theorem counted_start (h : ∀ t ∈ ts, t.family ≠ name) : counted name ts = start name := by
  rw [counted, List.find?_eq_none.2 fun t ht => by simpa using h t ht]
  rfl

theorem family_counted (name : String) (ts : List FamilyTally) : (counted name ts).family = name := by
  rw [counted]
  cases hfind : ts.find? (·.family = name) with
  | none => rfl
  | some u => simpa using List.find?_some hfind

theorem counted_cons (h : u.family ≠ name) : counted name (u :: ts) = counted name ts := by
  rw [counted, List.find?_cons_of_neg (by simpa using h), counted]

/-- A name before the first is the name of none. -/
theorem ne_of_lt_first (h : (u :: ts).Pairwise (·.family < ·.family)) (hlt : name < u.family) :
    ∀ t ∈ u :: ts, t.family ≠ name := by
  intro t ht
  rcases List.mem_cons.1 ht with rfl | ht
  · exact ne_of_gt hlt
  · exact ne_of_gt (lt_trans hlt ((List.pairwise_cons.1 h).1 t ht))

section

variable (h : ts.Pairwise (·.family < ·.family))

include h

theorem counted_of_mem (ht : t ∈ ts) : counted t.family ts = t := by
  induction ts with
  | nil => cases ht
  | cons u ts ih =>
    obtain ⟨hafter, hrest⟩ := List.pairwise_cons.1 h
    rcases List.mem_cons.1 ht with rfl | ht
    · simp [counted]
    · rw [counted_cons (ne_of_lt (hafter t ht)), ih hrest ht]

theorem mem_put : v ∈ put t ts ↔ v = t ∨ v.family ≠ t.family ∧ v ∈ ts := by
  induction ts with
  | nil => simp [put]
  | cons u ts ih =>
    obtain ⟨hafter, hrest⟩ := List.pairwise_cons.1 h
    rw [put]
    split
    · next hlt =>
      rw [List.mem_cons]
      exact or_congr_right ⟨fun hv => ⟨ne_of_lt_first h hlt v hv, hv⟩, And.right⟩
    · next hnlt =>
      split
      · next heq =>
        rw [List.mem_cons]
        refine or_congr_right ⟨fun hv => ⟨?_, List.mem_cons_of_mem u hv⟩, fun hv => ?_⟩
        · rw [heq]
          exact ne_of_gt (hafter v hv)
        · rcases List.mem_cons.1 hv.2 with rfl | hmem
          · exact absurd heq.symm hv.1
          · exact hmem
      · next hne =>
        rw [List.mem_cons, ih hrest, List.mem_cons]
        constructor
        · rintro (rfl | hv | ⟨hv, hmem⟩)
          · exact .inr ⟨Ne.symm hne, .inl rfl⟩
          · exact .inl hv
          · exact .inr ⟨hv, .inr hmem⟩
        · rintro (hv | ⟨hv, rfl | hmem⟩)
          · exact .inr (.inl hv)
          · exact .inl rfl
          · exact .inr (.inr ⟨hv, hmem⟩)

theorem ascending_put (t : FamilyTally) : (put t ts).Pairwise (·.family < ·.family) := by
  induction ts with
  | nil => exact List.pairwise_singleton _ _
  | cons u ts ih =>
    obtain ⟨hafter, hrest⟩ := List.pairwise_cons.1 h
    rw [put]
    split
    · next hlt =>
      refine List.pairwise_cons.2 ⟨fun v hv => ?_, h⟩
      rcases List.mem_cons.1 hv with rfl | hv
      · exact hlt
      · exact lt_trans hlt (hafter v hv)
    · next hnlt =>
      split
      · next heq => exact List.pairwise_cons.2 ⟨fun v hv => heq ▸ hafter v hv, hrest⟩
      · next hne =>
        refine List.pairwise_cons.2 ⟨fun v hv => ?_, ih hrest⟩
        rcases (mem_put hrest).1 hv with rfl | ⟨-, hv⟩
        · exact lt_of_le_of_ne (not_lt.1 hnlt) (Ne.symm hne)
        · exact hafter v hv

/-- Only the counts of one family change. -/
theorem sum_put (t : FamilyTally) :
    ((put t ts).map (·.count)).sum + (counted t.family ts).count = (ts.map (·.count)).sum + t.count := by
  induction ts with
  | nil => simp [put, counted, start]
  | cons u ts ih =>
    obtain ⟨hafter, hrest⟩ := List.pairwise_cons.1 h
    rw [put]
    split
    · next hlt =>
      rw [counted_start (ne_of_lt_first h hlt), List.map_cons, List.sum_cons]
      exact Nat.add_comm t.count _
    · split
      · next heq =>
        rw [heq, counted_of_mem h List.mem_cons_self, List.map_cons, List.map_cons, List.sum_cons, List.sum_cons]
        omega
      · next hne =>
        rw [counted_cons (Ne.symm hne), List.map_cons, List.map_cons, List.sum_cons, List.sum_cons, Nat.add_assoc, ih hrest]
        omega

end

end FamilyTally

/-! ### Counting a listing -/

namespace Tally

variable {listing other rest : List ListedOpcode} {e : ListedOpcode} {g : Family} {name : String} {t t' : Tally}
  {f f' : FamilyTally}

/-- The opcodes of the families with this name. -/
def named (name : String) (listing : List ListedOpcode) : List ListedOpcode :=
  listing.filter fun e => e.family.any (·.name = name)

/-- The sum of the costs without a branch. -/
def totalCycles (listing : List ListedOpcode) : Nat := (listing.map (·.notTaken)).sum

/-- The sum of every family fits in 32 bits. -/
def Fits (listing : List ListedOpcode) : Prop := ∀ name, totalCycles (named name listing) < UInt32.size

theorem named_append (name : String) (listing rest : List ListedOpcode) :
    named name (listing ++ rest) = named name listing ++ named name rest :=
  List.filter_append ..

theorem totalCycles_append (listing rest : List ListedOpcode) :
    totalCycles (listing ++ rest) = totalCycles listing + totalCycles rest := by
  rw [totalCycles, List.map_append, List.sum_append, totalCycles, totalCycles]

theorem totalCycles_singleton (e : ListedOpcode) : totalCycles [e] = e.notTaken := by
  rw [totalCycles, List.map_singleton, List.sum_singleton]

/-- A listing of few cycles has no family of many. -/
theorem fits_of_totalCycles (h : totalCycles listing < UInt32.size) : Fits listing := fun _ =>
  lt_of_le_of_lt ((List.filter_sublist.map _).sum_le_sum fun _ _ => Nat.zero_le _) h

theorem Fits.left (h : Fits (listing ++ rest)) : Fits listing := by
  intro name
  have hname := h name
  rw [named_append, totalCycles_append] at hname
  omega

section

variable (listing)

theorem named_reserved (h : e.family = none) (name : String) : named name (listing ++ [e]) = named name listing := by
  simp [named, h]

theorem named_own (h : e.family = some g) : named g.name (listing ++ [e]) = named g.name listing ++ [e] := by
  simp [named, h]

theorem named_other (h : e.family = some g) (hname : g.name ≠ name) :
    named name (listing ++ [e]) = named name listing := by
  simp [named, h, hname]

end

theorem named_ne_nil : named name listing ≠ [] ↔ ∃ e ∈ listing, ∃ g, e.family = some g ∧ g.name = name := by
  rw [← List.isEmpty_eq_false_iff, List.isEmpty_eq_false_iff_exists_mem]
  simp only [named, List.mem_filter, Option.any_eq_true, decide_eq_true_eq]

theorem named_name (g : Family) (listing : List ListedOpcode) :
    named g.name listing = listing.filter (·.family = some g) := by
  refine List.filter_congr fun e _ => ?_
  rw [Bool.eq_iff_iff, Option.any_eq_true, decide_eq_true_eq]
  constructor
  · rintro ⟨g', hg', hname⟩
    rw [hg', Family.name_injective (of_decide_eq_true hname)]
  · exact fun h => ⟨g, h, decide_eq_true rfl⟩

/-- The figures of a family are those of the opcodes with its name. -/
structure Figures (listing : List ListedOpcode) (f : FamilyTally) : Prop where
  count : f.count = (named f.family listing).length
  conditional : f.conditional = (named f.family listing).countP (·.twoCosts)
  cycles : f.cycles.toNat = totalCycles (named f.family listing)

theorem Figures.unique (h : Figures listing f) (h' : Figures listing f') (hname : f.family = f'.family) : f = f' := by
  obtain ⟨family, count, conditional, cycles⟩ := f
  obtain ⟨family', count', conditional', cycles'⟩ := f'
  obtain rfl : family = family' := hname
  obtain rfl : count = count' := h.count.trans h'.count.symm
  obtain rfl : conditional = conditional' := h.conditional.trans h'.conditional.symm
  obtain rfl : cycles = cycles' := UInt32.toNat_inj.1 (h.cycles.trans h'.cycles.symm)
  rfl

theorem Figures.adds (h : Figures listing f) (he : e.family = some g) (hname : f.family = g.name) (hf : f.Adds e f') :
    Figures (listing ++ [e]) f' := by
  have hnamed : named f'.family (listing ++ [e]) = named f.family listing ++ [e] := by
    rw [hf.family, hname, named_own listing he]
  constructor
  case count => rw [hnamed, hf.count, h.count, List.length_append, List.length_singleton]
  case conditional =>
    rw [hnamed, hf.conditional, h.conditional, List.countP_append, List.countP_singleton]
    cases e.twoCosts <;> rfl
  case cycles => rw [hnamed, hf.cycles, h.cycles, totalCycles_append, totalCycles_singleton]

theorem Figures.keep (h : Figures listing f) (he : e.family = some g) (hname : f.family ≠ g.name) :
    Figures (listing ++ [e]) f := by
  have hnamed := named_other listing he (Ne.symm hname)
  exact ⟨by rw [hnamed, h.count], by rw [hnamed, h.conditional], by rw [hnamed, h.cycles]⟩

/-- The tally counts these opcodes, each of them once. -/
structure Counts (listing : List ListedOpcode) (t : Tally) : Prop where
  opcodes : t.opcodes = listing.length
  reserved : t.reserved = listing.countP (·.family.isNone)
  total : t.reserved + (t.families.map (·.count)).sum = t.opcodes
  ascending : t.families.Pairwise (·.family < ·.family)
  occurs : ∀ name, (∃ f ∈ t.families, f.family = name) ↔ named name listing ≠ []
  figures : ∀ f ∈ t.families, Figures listing f

theorem Counts.counted (h : Counts listing t) (name : String) :
    Figures listing (FamilyTally.counted name t.families) := by
  by_cases hname : ∃ f ∈ t.families, f.family = name
  · obtain ⟨f, hf, rfl⟩ := hname
    rw [FamilyTally.counted_of_mem h.ascending hf]
    exact h.figures f hf
  · have hnil : named name listing = [] := not_not.1 fun hne => hname ((h.occurs name).2 hne)
    rw [FamilyTally.counted_start fun f hf heq => hname ⟨f, hf, heq⟩]
    constructor <;> rw [FamilyTally.start, hnil] <;> rfl

theorem counts_empty : Counts [] empty where
  opcodes := rfl
  reserved := rfl
  total := rfl
  ascending := .nil
  occurs name := by simp [empty, named]
  figures := nofun

theorem Counts.reserved_add (h : Counts listing t) (he : e.family = none) :
    Counts (listing ++ [e]) ⟨t.opcodes + 1, t.reserved + 1, t.families⟩ := by
  have hnamed := named_reserved listing he
  constructor
  case opcodes => simp [h.opcodes]
  case reserved => simp [h.reserved, he]
  case total =>
    have htotal := h.total
    simp only
    omega
  case ascending => exact h.ascending
  case occurs => exact fun name => by rw [hnamed]; exact h.occurs name
  case figures =>
    intro f hf
    obtain ⟨hcount, hconditional, hcycles⟩ := h.figures f hf
    exact ⟨by rw [hnamed, hcount], by rw [hnamed, hconditional], by rw [hnamed, hcycles]⟩

theorem Counts.family_add (h : Counts listing t) (he : e.family = some g)
    (hf : (FamilyTally.counted g.name t.families).Adds e f) :
    Counts (listing ++ [e]) ⟨t.opcodes + 1, t.reserved, FamilyTally.put f t.families⟩ := by
  have hname : f.family = g.name := hf.family.trans (FamilyTally.family_counted _ _)
  constructor
  case opcodes => simp [h.opcodes]
  case reserved => simp [h.reserved, he]
  case total =>
    have hsum := FamilyTally.sum_put h.ascending f
    have htotal := h.total
    have hcount := hf.count
    rw [hname] at hsum
    simp only
    omega
  case ascending => exact FamilyTally.ascending_put h.ascending f
  case occurs =>
    intro name
    simp only [FamilyTally.mem_put h.ascending]
    by_cases hg : g.name = name
    · subst hg
      rw [named_own listing he]
      exact iff_of_true ⟨f, .inl rfl, hname⟩ (by simp)
    · rw [named_other listing he hg, ← h.occurs name]
      constructor
      · rintro ⟨f', rfl | ⟨-, hf'⟩, hfamily⟩
        · exact absurd (hname.symm.trans hfamily) hg
        · exact ⟨f', hf', hfamily⟩
      · rintro ⟨f', hf', hfamily⟩
        exact ⟨f', .inr ⟨by rw [hname, hfamily]; exact Ne.symm hg, hf'⟩, hfamily⟩
  case figures =>
    intro f' hf'
    rcases (FamilyTally.mem_put h.ascending).1 hf' with rfl | ⟨hne, hf'⟩
    · exact (h.counted g.name).adds he (FamilyTally.family_counted _ _) hf
    · exact (h.figures f' hf').keep he (by rwa [← hname])

/-- What a tally keeps when one more opcode is counted. -/
theorem Counts.add? (h : Counts listing t) (ht : t.add? e = some t') : Counts (listing ++ [e]) t' := by
  cases he : e.family with
  | none =>
    rw [Tally.add?, he] at ht
    cases ht
    exact h.reserved_add he
  | some g =>
    rw [Tally.add?, he] at ht
    obtain ⟨families, hfamilies, rfl⟩ := Option.map_eq_some_iff.1 ht
    obtain ⟨f, hf, rfl⟩ := Option.map_eq_some_iff.1 hfamilies
    exact h.family_add he (FamilyTally.adds_of_add? hf)

/-- One more opcode can be counted, if the sum of its family fits. -/
theorem Counts.exists_add? (h : Counts listing t) (hfits : Fits (listing ++ [e])) : ∃ t', t.add? e = some t' := by
  cases he : e.family with
  | none => exact ⟨_, by rw [Tally.add?, he]⟩
  | some g =>
    have hname := FamilyTally.family_counted g.name t.families
    have hlt := hfits g.name
    rw [named_own listing he, totalCycles_append, totalCycles_singleton] at hlt
    have hcycles := (h.counted g.name).cycles
    rw [hname] at hcycles
    obtain ⟨f, hf⟩ := FamilyTally.exists_adds (hcycles ▸ hlt)
    have henter : FamilyTally.enter? g.name e.cycles t.families = some (FamilyTally.put f t.families) := by
      rw [FamilyTally.enter?, hf, Option.map_some]
    exact ⟨_, by rw [Tally.add?, he]; exact congrArg (Option.map _) henter⟩

theorem Counts.foldlM (h : Counts listing t) (ht : rest.foldlM Tally.add? t = some t') :
    Counts (listing ++ rest) t' := by
  induction rest generalizing listing t with
  | nil =>
    cases ht
    rwa [List.append_nil]
  | cons e rest ih =>
    rw [List.foldlM_cons] at ht
    obtain ⟨u, hu, ht⟩ := Option.bind_eq_some_iff.1 ht
    rw [List.append_cons]
    exact ih (h.add? hu) ht

theorem Counts.exists_foldlM (h : Counts listing t) (hfits : Fits (listing ++ rest)) :
    ∃ t', rest.foldlM Tally.add? t = some t' := by
  induction rest generalizing listing t with
  | nil => exact ⟨t, rfl⟩
  | cons e rest ih =>
    rw [List.append_cons] at hfits
    obtain ⟨u, hu⟩ := h.exists_add? hfits.left
    obtain ⟨t', ht'⟩ := ih (h.add? hu) hfits
    exact ⟨t', by rw [List.foldlM_cons, hu]; exact ht'⟩

theorem counts_ofListing? (h : ofListing? listing = some t) : Counts listing t := counts_empty.foldlM h

theorem Counts.fits (h : Counts listing t) : Fits listing := by
  intro name
  obtain hnil | hne := Decidable.em (named name listing = [])
  · rw [hnil]
    exact (by decide : 0 < UInt32.size)
  · obtain ⟨f, hf, rfl⟩ := (h.occurs name).2 hne
    rw [← (h.figures f hf).cycles]
    exact f.cycles.toNat_lt_size

/-- A listing has a tally if and only if the sum of each family fits in 32 bits. -/
theorem isSome_ofListing? (listing : List ListedOpcode) : (ofListing? listing).isSome ↔ Fits listing := by
  rw [Option.isSome_iff_exists]
  constructor
  · rintro ⟨t, ht⟩
    exact (counts_ofListing? ht).fits
  · exact fun hfits => counts_empty.exists_foldlM hfits

/-! ### The order of a listing -/

theorem named_perm (h : other.Perm listing) (name : String) : (named name other).Perm (named name listing) :=
  h.filter _

theorem totalCycles_perm (h : other.Perm listing) : totalCycles other = totalCycles listing := (h.map _).sum_eq

theorem Fits.perm (h : Fits listing) (hperm : other.Perm listing) : Fits other := by
  intro name
  rw [totalCycles_perm (named_perm hperm name)]
  exact h name

theorem Counts.perm (h : Counts other t) (hperm : other.Perm listing) : Counts listing t where
  opcodes := h.opcodes.trans hperm.length_eq
  reserved := h.reserved.trans (hperm.countP_eq _)
  total := h.total
  ascending := h.ascending
  occurs name := by
    rw [h.occurs name, ne_eq, ne_eq, ← List.length_eq_zero_iff, (named_perm hperm name).length_eq,
      List.length_eq_zero_iff]
  figures f hf := by
    have hnamed := named_perm hperm f.family
    obtain ⟨hcount, hconditional, hcycles⟩ := h.figures f hf
    exact ⟨hcount.trans hnamed.length_eq, hconditional.trans (hnamed.countP_eq _),
      hcycles.trans (totalCycles_perm hnamed)⟩

/-- The opcodes leave no choice of their tally. -/
theorem Counts.unique (h : Counts listing t) (h' : Counts listing t') : t = t' := by
  have hmem : ∀ {u u' : Tally}, Counts listing u → Counts listing u' → ∀ f ∈ u.families, f ∈ u'.families := by
    intro u u' hu hu' f hf
    obtain ⟨f', hf', hname⟩ := (hu'.occurs f.family).2 ((hu.occurs f.family).1 ⟨f, hf, rfl⟩)
    rwa [(hu.figures f hf).unique (hu'.figures f' hf') hname.symm]
  have hnodup : ∀ {fs : List FamilyTally}, fs.Pairwise (·.family < ·.family) → fs.Nodup := fun hfs =>
    hfs.imp fun hlt heq => absurd (congrArg FamilyTally.family heq) (ne_of_lt hlt)
  have hfamilies : t.families = t'.families :=
    List.Perm.eq_of_pairwise (fun f g _ _ hfg hgf => absurd hgf (lt_asymm hfg)) h.ascending h'.ascending
      ((List.perm_ext_iff_of_nodup (hnodup h.ascending) (hnodup h'.ascending)).2 fun f =>
        ⟨hmem h h' f, hmem h' h f⟩)
  have hopcodes := h.opcodes.trans h'.opcodes.symm
  have hreserved := h.reserved.trans h'.reserved.symm
  cases t
  cases t'
  simp_all

end Tally

/-! ### Beside a run -/

/-- As many opcodes are listed without a family as there are arms of reserved opcodes. -/
theorem Listing.Listed.countP_isNone {s : Settings} {answers : List (Except Fault Entry)} {as : List Arm}
    {ls : List ListedOpcode} (h : Listed s answers as ls) :
    ls.countP (·.family.isNone) = as.countP (s.reserved.contains ·.opcode) := by
  induction h with
  | nil => rfl
  | cons hl h ih =>
    rename_i e a l answers as ls
    have hreserved : l.family.isNone = s.reserved.contains a.opcode := by
      cases hl with
      | reserved hop => exact (List.contains_iff_mem.2 hop).symm
      | record hop ha =>
        rw [ha]
        exact (Bool.eq_false_iff.2 fun hmem => hop (List.contains_iff_mem.1 hmem)).symm
    rw [List.countP_cons, List.countP_cons, ih, hreserved]

namespace Tally

/-- The tally has the totals of the run. -/
structure HasTotals (t : Tally) (summary : Summary) : Prop where
  arms : t.opcodes = summary.arms
  undefined : t.reserved = summary.undefined
  code : (t.families.map (·.count)).sum = summary.code

theorem Counts.hasTotals {listing : List ListedOpcode} {t : Tally} (h : Counts listing t) {s : Settings}
    (hs : s.isLenient = false) {table : List UInt8} (hlisting : Listing.ofTable s table = .ok listing) :
    ∃ summary, (compile s table).result = .ok summary ∧ t.HasTotals summary := by
  obtain ⟨hlisted, hfault⟩ := Listing.listed_of_ofTable hs hlisting
  have hkinds := length_eq_kinds (writtenArms s table)
  have hdiagnostics := diagnostics_of_strict hs table
  have hopcodes : t.opcodes = (writtenArms s table).length := h.opcodes.trans hlisted.length_eq
  have hreserved : t.reserved = (writtenArms s table).countP (·.kind = .undefined) := by
    rw [h.reserved, hlisted.countP_isNone]
    exact List.countP_congr fun a ha => by simp [kind_writtenArms ha]
  have htotal := h.total
  refine ⟨Run.totals (writtenArms s table), ?_, hopcodes, hreserved, ?_⟩
  · rw [compile_eq, Run.result_ofArms_ok]
    exact ⟨hfault, rfl⟩
  · have hcode : (Run.totals (writtenArms s table)).code = (writtenArms s table).countP (·.kind = .code) := rfl
    omega

/-- What a tally says of a listing. -/
structure Accounts (listing : List ListedOpcode) (t : Tally) : Prop where
  opcodes : t.opcodes = listing.length
  reserved : t.reserved = listing.countP (·.family.isNone)
  total : t.reserved + (t.families.map (·.count)).sum = t.opcodes
  ascending : t.families.Pairwise (·.family < ·.family)
  occurs : ∀ name, (∃ f ∈ t.families, f.family = name) ↔ ∃ e ∈ listing, ∃ g, e.family = some g ∧ g.name = name
  /-- what is counted under the name of a family is of that family -/
  own : ∀ g : Family, named g.name listing = listing.filter (·.family = some g)
  count : ∀ f ∈ t.families, f.count = (named f.family listing).length
  conditional : ∀ f ∈ t.families, f.conditional = (named f.family listing).countP (·.twoCosts)
  cycles : ∀ f ∈ t.families, f.cycles.toNat = ((named f.family listing).map (·.notTaken)).sum
  permuted : ∀ other, other.Perm listing → ofListing? other = some t
  compiled : ∀ s table, s.strictness = .strict → Listing.ofTable s table = .ok listing →
    ∃ summary, (compile s table).result = .ok summary ∧ t.HasTotals summary

/-- A tally accounts for every opcode of a listing, once. -/
theorem accounts_ofListing (listing : List ListedOpcode) (hfits : Fits listing) :
    ∃ t, ofListing? listing = some t ∧ Accounts listing t := by
  obtain ⟨t, ht⟩ := Option.isSome_iff_exists.1 ((isSome_ofListing? listing).2 hfits)
  have h := counts_ofListing? ht
  refine ⟨t, ht, ?_⟩
  constructor
  case opcodes => exact h.opcodes
  case reserved => exact h.reserved
  case total => exact h.total
  case ascending => exact h.ascending
  case occurs => exact fun name => (h.occurs name).trans named_ne_nil
  case own => exact fun g => named_name g listing
  case count => exact fun f hf => (h.figures f hf).count
  case conditional => exact fun f hf => (h.figures f hf).conditional
  case cycles => exact fun f hf => (h.figures f hf).cycles
  case permuted =>
    intro other hperm
    obtain ⟨u, hu⟩ := Option.isSome_iff_exists.1 ((isSome_ofListing? other).2 (hfits.perm hperm))
    rw [hu, ((counts_ofListing? hu).perm hperm).unique h]
  case compiled =>
    intro s table hstrict hlisting
    have hs : s.isLenient = false := by
      rw [Settings.isLenient, hstrict]
      rfl
    exact h.hasTotals hs hlisting

/-- A branch, an opcode of the same family without a cost, and one without a family. -/
def unevenListing : List ListedOpcode :=
  [⟨.ofNat 0x28, false, some "JR Z,r8", some .relativeJump, [], none, some (.conditional 3 2), none, "" ⟩,
    ⟨.ofNat 0x18, true, none, some .relativeJump, [], none, none, none, "" ⟩,
    ⟨.ofNat 0xd3, false, none, none, [], none, some (.fixed 1), none, "" ⟩]

theorem accounts_unevenListing :
    Fits unevenListing ∧ ofListing? unevenListing = some ⟨3, 1, [⟨"relative_jump", 2, 1, 2⟩]⟩ ∧
      ∃ t, ofListing? unevenListing = some t ∧ Accounts unevenListing t := by
  have hfits : Fits unevenListing := fits_of_totalCycles (by decide)
  exact ⟨hfits, by decide, accounts_ofListing unevenListing hfits⟩

end Tally
end OpcodeDispatch

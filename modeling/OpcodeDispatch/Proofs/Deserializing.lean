import Mathlib.Data.List.Forall2
import OpcodeDispatch.Json.Deserializer
import OpcodeDispatch.Proofs.JsonText

/-!
What a deserializer promises. `Documented` says of each kind of type which trees it is read from: a number
from its decimal, a list from an array, a variant from its name, and a record from the members of an object
(`SetBy`) or from the items of an array (`SetInOrder`). The standard deserializer keeps all of it.
-/

namespace OpcodeDispatch
namespace Deserializer

/-- A variant without data, by its name: a string, or an object whose one member has the name and no value. -/
inductive IsVariant (name : String) : Json → Prop
  | string {l : String} (h : Json.decode? l = some name) : IsVariant name (.string l)
  | object {key : String} (h : Json.decode? key = some name) : IsVariant name (.object [(key, .null)])

/-- The members turn the record `s` into `t`. A member of a field sets it, unless it is among those that
are set before; a member of another name does nothing. -/
inductive SetBy {σ : Type} (fields : List (RecordField σ)) : List String → σ → List (String × Json) → σ → Prop
  | nil (seen : List String) (s : σ) : SetBy fields seen s [] s
  | other {seen : List String} {s t : σ} {key name : String} {v : Json} {ms : List (String × Json)}
      (hkey : Json.decode? key = some name) (hname : ∀ f ∈ fields, f.name ≠ name) (h : SetBy fields seen s ms t) :
      SetBy fields seen s ((key, v) :: ms) t
  | field {seen : List String} {s t : σ} {key : String} {v : Json} {ms : List (String × Json)} {f : RecordField σ}
      {set : σ → σ} (hkey : Json.decode? key = some f.name) (hf : f ∈ fields) (hnew : f.name ∉ seen)
      (hv : f.read v = .ok set) (h : SetBy fields (f.name :: seen) (set s) ms t) :
      SetBy fields seen s ((key, v) :: ms) t

/-- The items set the first fields, one after the other. -/
inductive SetInOrder {σ : Type} : List (RecordField σ) → σ → List Json → σ → Prop
  | nil (fields : List (RecordField σ)) (s : σ) : SetInOrder fields s [] s
  | cons {f : RecordField σ} {fields : List (RecordField σ)} {s t : σ} {j : Json} {js : List Json} {set : σ → σ}
      (hv : f.read j = .ok set) (h : SetInOrder fields (set s) js t) : SetInOrder (f :: fields) s (j :: js) t

/-- From which trees a deserializer reads values of each kind of type. -/
structure Documented (d : Deserializer) : Prop where
  tree : ∀ text j, d.tree text = .ok j ↔ Json.Spelled text j
  unsigned : ∀ bound j n, j.Spellable → (d.unsigned bound j = .ok n ↔ j = .ofNat n.val)
  list : ∀ {α : Type} (item : Json → Except String α) j xs,
    d.list item j = .ok xs ↔ ∃ js, j = .array js ∧ List.Forall₂ (fun j x => item j = .ok x) js xs
  variant : ∀ {α : Type} (names : List (String × α)) j v, (names.map (·.1)).Nodup →
    (d.variant names j = .ok v ↔ ∃ name, (name, v) ∈ names ∧ IsVariant name j)
  object : ∀ {σ : Type} (fields : List (RecordField σ)) base ms s, (fields.map (·.name)).Nodup →
    (d.record fields base (.object ms) = .ok s ↔ SetBy fields [] base ms s)
  array : ∀ {σ : Type} (fields : List (RecordField σ)) base js s,
    d.record fields base (.array js) = .ok s ↔ SetInOrder fields base js s
  /-- nothing else is a record -/
  other : ∀ {σ : Type} (fields : List (RecordField σ)) base j s, d.record fields base j = .ok s →
    (∃ ms, j = .object ms) ∨ ∃ js, j = .array js

/-! ### The standard deserializer -/

section

variable {ε α β σ : Type}

theorem bind_eq_ok_iff {x : Except ε α} {f : α → Except ε β} {b : β} :
    x >>= f = .ok b ↔ ∃ a, x = .ok a ∧ f a = .ok b := by
  constructor
  · intro h
    cases x with
    | error e => cases h
    | ok a => exact ⟨a, rfl, h⟩
  · rintro ⟨a, rfl, h⟩
    exact h

theorem map_eq_ok_iff {x : Except ε α} {f : α → β} {b : β} : x.map f = .ok b ↔ ∃ a, x = .ok a ∧ f a = b := by
  cases x with
  | error e => exact iff_of_false nofun fun ⟨_, h, _⟩ => nomatch h
  | ok a => simp [Except.map]

theorem orElse_eq_ok_iff {reason : String} {x : Option α} {a : α} : orElse reason x = .ok a ↔ x = some a := by
  cases x <;> simp [orElse]

theorem mapM_eq_ok_iff {item : Json → Except String α} {js : List Json} {xs : List α} :
    js.mapM item = .ok xs ↔ List.Forall₂ (fun j x => item j = .ok x) js xs := by
  induction js generalizing xs with
  | nil =>
    rw [List.mapM_nil, List.forall₂_nil_left_iff]
    exact ⟨fun h => (Except.ok.inj h).symm, fun h => congrArg _ h.symm⟩
  | cons j js ih =>
    rw [List.mapM_cons, bind_eq_ok_iff, List.forall₂_cons_left_iff]
    constructor
    · rintro ⟨x, hx, h⟩
      obtain ⟨rest, hrest, h⟩ := bind_eq_ok_iff.1 h
      exact ⟨x, rest, hx, ih.1 hrest, (Except.ok.inj h).symm⟩
    · rintro ⟨x, rest, hx, hrest, rfl⟩
      exact ⟨x, hx, bind_eq_ok_iff.2 ⟨rest, ih.2 hrest, rfl⟩⟩

theorem standardUnsigned_eq_ok_iff {bound : Nat} {j : Json} {n : Fin bound} (hj : j.Spellable) :
    standardUnsigned bound j = .ok n ↔ j = .ofNat n.val := by
  rw [standardUnsigned, bind_eq_ok_iff, ← Json.nat?_eq_some_iff hj]
  constructor
  · rintro ⟨m, hm, h⟩
    split at h
    · cases h
      exact orElse_eq_ok_iff.1 hm
    · cases h
  · intro hn
    refine ⟨n.val, orElse_eq_ok_iff.2 hn, ?_⟩
    rw [dif_pos n.isLt]
    rfl

/-- A table without repeated names has the pairs that are looked up in it. -/
theorem lookup_eq_some_iff {names : List (String × α)} (h : (names.map (·.1)).Nodup) {name : String} {v : α} :
    names.lookup name = some v ↔ (name, v) ∈ names := by
  induction names with
  | nil => simp
  | cons e names ih =>
    obtain ⟨hnot, hrest⟩ := List.nodup_cons.1 h
    rw [List.lookup_cons, List.mem_cons]
    by_cases hname : name = e.1
    · rw [hname, beq_self_eq_true]
      constructor
      · intro hv
        exact .inl (Prod.ext rfl (Option.some.inj hv).symm)
      · rintro (heq | hmem)
        · exact congrArg _ (congrArg Prod.snd heq).symm
        · exact absurd (List.mem_map_of_mem hmem) hnot
    · rw [beq_false_of_ne hname]
      refine (ih hrest).trans ⟨.inr, fun hv => hv.resolve_left fun heq => hname (congrArg Prod.fst heq)⟩

theorem standardVariant_eq_ok_iff {names : List (String × α)} {j : Json} {v : α} (h : (names.map (·.1)).Nodup) :
    standardVariant names j = .ok v ↔ ∃ name, (name, v) ∈ names ∧ IsVariant name j := by
  have hnamed : ∀ l : String, (orElse "not a character" (Json.decode? l) >>= fun name =>
      orElse "unknown variant" (names.lookup name)) = .ok v ↔
        ∃ name, (name, v) ∈ names ∧ Json.decode? l = some name := by
    intro l
    rw [bind_eq_ok_iff]
    refine exists_congr fun name => ?_
    rw [orElse_eq_ok_iff, orElse_eq_ok_iff, lookup_eq_some_iff h, and_comm]
  constructor
  · intro hv
    unfold standardVariant at hv
    split at hv
    · obtain ⟨name, hmem, hl⟩ := (hnamed _).1 hv
      exact ⟨name, hmem, .string hl⟩
    · obtain ⟨name, hmem, hl⟩ := (hnamed _).1 hv
      exact ⟨name, hmem, .object hl⟩
    · cases hv
  · rintro ⟨name, hmem, hl | hl⟩
    · exact (hnamed _).2 ⟨name, hmem, hl⟩
    · exact (hnamed _).2 ⟨name, hmem, hl⟩

section

variable {fields : List (RecordField σ)} {f : RecordField σ} {seen : List String} {s t : σ}

theorem find?_name_eq_none {name : String} : fields.find? (·.name == name) = none ↔ ∀ f ∈ fields, f.name ≠ name := by
  simp

theorem find?_name (h : (fields.map (·.name)).Nodup) (hf : f ∈ fields) :
    fields.find? (·.name == f.name) = some f := by
  induction fields with
  | nil => cases hf
  | cons g fields ih =>
    obtain ⟨hnot, hrest⟩ := List.nodup_cons.1 h
    rcases List.mem_cons.1 hf with rfl | hf
    · exact List.find?_cons_of_pos (beq_self_eq_true f.name)
    · have hne : g.name ≠ f.name := fun heq => hnot (List.mem_map.2 ⟨f, hf, heq.symm⟩)
      rw [List.find?_cons_of_neg (by simpa using hne), ih hrest hf]

theorem standardMembers_cons {key : String} {v : Json} {ms : List (String × Json)} {name : String}
    (hkey : Json.decode? key = some name) : standardMembers fields seen s ((key, v) :: ms) =
      match fields.find? (·.name == name) with
      | none => standardMembers fields seen s ms
      | some field =>
        if name ∈ seen then .error "duplicate field"
        else field.read v >>= fun set => standardMembers fields (name :: seen) (set s) ms := by
  rw [standardMembers, hkey]
  rfl

theorem standardMembers_eq_ok_iff (h : (fields.map (·.name)).Nodup) {ms : List (String × Json)} :
    standardMembers fields seen s ms = .ok t ↔ SetBy fields seen s ms t := by
  induction ms generalizing seen s with
  | nil =>
    constructor
    · intro hok
      cases hok
      exact .nil seen _
    · intro hset
      cases hset
      rfl
  | cons m ms ih =>
    obtain ⟨key, v⟩ := m
    constructor
    · intro hok
      obtain ⟨name, hkey, -⟩ := bind_eq_ok_iff.1 hok
      rw [orElse_eq_ok_iff] at hkey
      rw [standardMembers_cons hkey] at hok
      split at hok
      · next hnone => exact .other hkey (find?_name_eq_none.1 hnone) (ih.1 hok)
      · next field hfound =>
        split at hok
        · cases hok
        · next hnew =>
          obtain ⟨set, hv, hok⟩ := bind_eq_ok_iff.1 hok
          obtain rfl : field.name = name := by simpa using List.find?_some hfound
          exact .field hkey (List.mem_of_find?_eq_some hfound) hnew hv (ih.1 hok)
    · intro hset
      cases hset with
      | other hkey hname hset =>
        rw [standardMembers_cons hkey, find?_name_eq_none.2 hname]
        exact ih.2 hset
      | field hkey hf hnew hv hset =>
        rw [standardMembers_cons hkey, find?_name h hf]
        simp only [if_neg hnew]
        exact bind_eq_ok_iff.2 ⟨_, hv, ih.2 hset⟩

theorem standardItems_eq_ok_iff {js : List Json} : standardItems fields s js = .ok t ↔ SetInOrder fields s js t := by
  induction js generalizing fields s with
  | nil =>
    constructor
    · intro hok
      unfold standardItems at hok
      cases hok
      exact .nil fields _
    · intro hset
      cases hset
      unfold standardItems
      rfl
  | cons j js ih =>
    constructor
    · intro hok
      cases fields with
      | nil => cases hok
      | cons f fields =>
        obtain ⟨set, hv, hok⟩ := bind_eq_ok_iff.1 hok
        exact .cons hv (ih.1 hok)
    · intro hset
      cases hset with
      | cons hv hset => exact bind_eq_ok_iff.2 ⟨_, hv, ih.2 hset⟩

end

end

theorem documented_standard : standard.Documented where
  tree text j := orElse_eq_ok_iff.trans Json.parse?_eq_some_iff
  unsigned bound j n hj := standardUnsigned_eq_ok_iff hj
  list item j xs := by
    constructor
    · intro h
      cases j with
      | array js => exact ⟨js, rfl, mapM_eq_ok_iff.1 h⟩
      | _ => cases h
    · rintro ⟨js, rfl, h⟩
      exact mapM_eq_ok_iff.2 h
  variant names j v h := standardVariant_eq_ok_iff h
  object fields base ms s h := standardMembers_eq_ok_iff h
  array fields base js s := standardItems_eq_ok_iff
  other fields base j s h := by
    cases j with
    | object ms => exact .inl ⟨ms, rfl⟩
    | array js => exact .inr ⟨js, rfl⟩
    | _ => cases h

end Deserializer
end OpcodeDispatch

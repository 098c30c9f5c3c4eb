import Mathlib.Data.List.Nodup
import OpcodeDispatch.Proofs.Deserializing
import OpcodeDispatch.Settings.Json

/-!
Settings as texts, for every deserializer that keeps its promises. `Holds` says when the members of an
object hold settings: each field stands there at most once and with its value, and a field that is left
out has its default. A text whose members hold settings is read as these, in whatever order the members
stand and whatever others stand among them; and a text with a field outside the range of its type is
refused.
-/

namespace OpcodeDispatch
namespace Settings

open Deserializer (IsVariant SetBy SetInOrder)

/-! ### The fields and what is said of them -/

inductive Field where
  | ticksPerCycle | highMemoryBase | reserved | strictness | costStyle
  deriving DecidableEq

namespace Field

/-- The fields in the order of an array. -/
def all : List Field := [ticksPerCycle, highMemoryBase, reserved, strictness, costStyle]

def name : Field → String
  | ticksPerCycle => "ticks_per_cycle"
  | highMemoryBase => "high_memory_base"
  | reserved => "reserved"
  | strictness => "strictness"
  | costStyle => "cost_style"

/-- Two settings have the same value of the field. -/
def Same : Field → Settings → Settings → Prop
  | ticksPerCycle, s, t => s.ticksPerCycle = t.ticksPerCycle
  | highMemoryBase, s, t => s.highMemoryBase = t.highMemoryBase
  | reserved, s, t => s.reserved = t.reserved
  | strictness, s, t => s.strictness = t.strictness
  | costStyle, s, t => s.costStyle = t.costStyle

/-- The key of the member is the field's name. -/
def Names (f : Field) (m : String × Json) : Prop := Json.decode? m.1 = some f.name

end Field

/-- The value is the one that the settings have of the field. -/
inductive Says (s : Settings) : Field → Json → Prop
  | ticksPerCycle : Says s .ticksPerCycle (.ofNat s.ticksPerCycle.toNat)
  | highMemoryBase : Says s .highMemoryBase (.ofNat s.highMemoryBase.toNat)
  | reserved : Says s .reserved (.array (s.reserved.map fun op => .ofNat op.val))
  | strictness {j : Json} (h : IsVariant (strictnessName s.strictness) j) : Says s .strictness j
  | costStyle {j : Json} (h : IsVariant (costStyleName s.costStyle) j) : Says s .costStyle j

/-- The members turn the settings `base` into `s`. -/
structure Holds (base : Settings) (ms : List (String × Json)) (s : Settings) : Prop where
  keys : ∀ m ∈ ms, (Json.decode? m.1).isSome = true
  once : ms.Pairwise fun m n => ∀ f : Field, f.Names m → ¬ f.Names n
  values : ∀ m ∈ ms, ∀ f : Field, f.Names m → Says s f m.2
  rest : ∀ f : Field, (∀ m ∈ ms, ¬ f.Names m) → f.Same base s

/-- The literal is not the decimal of a number below the bound. -/
def Outside (bound : Nat) (l : String) : Prop := ∀ n < bound, l ≠ Numeral.decimal n

/-- A value outside the range of the field's type. -/
inductive Beyond : Field → Json → Prop
  | ticksPerCycle {l : String} (h : Outside UInt32.size l) : Beyond .ticksPerCycle (.number l)
  | highMemoryBase {l : String} (h : Outside UInt16.size l) : Beyond .highMemoryBase (.number l)
  | reserved {js : List Json} {l : String} (hl : .number l ∈ js) (h : Outside 256 l) :
      Beyond .reserved (.array js)
  | strictness {j : Json} (h : ∀ v, ¬ IsVariant (strictnessName v) j) : Beyond .strictness j
  | costStyle {j : Json} (h : ∀ v, ¬ IsVariant (costStyleName v) j) : Beyond .costStyle j

variable {s t base : Settings} {f g : Field} {j : Json} {m : String × Json} {ms : List (String × Json)}

namespace Field

theorem mem_all (f : Field) : f ∈ all := by cases f <;> decide

theorem name_inj (h : f.name = g.name) : f = g := by
  cases f <;> cases g <;> first | rfl | exact absurd h (by decide)

theorem Names.eq (hf : f.Names m) (hg : g.Names m) : f = g :=
  name_inj (Option.some.inj (hf.symm.trans hg))

theorem Same.refl (f : Field) (s : Settings) : f.Same s s := by cases f <;> rfl

theorem Same.symm (h : f.Same s t) : f.Same t s := by cases f <;> exact Eq.symm h

theorem Same.trans {u : Settings} (h : f.Same s t) (h' : f.Same t u) : f.Same s u := by
  cases f <;> exact Eq.trans h h'

end Field

theorem eq_of_same (h : ∀ f : Field, f.Same s t) : s = t := by
  cases s
  cases t
  rw [mk.injEq]
  exact ⟨h .ticksPerCycle, h .highMemoryBase, h .reserved, h .strictness, h .costStyle⟩

theorem Says.congr (h : Says s f j) (hsame : f.Same s t) : Says t f j := by
  cases h with
  | ticksPerCycle => exact (show s.ticksPerCycle = t.ticksPerCycle from hsame) ▸ .ticksPerCycle
  | highMemoryBase => exact (show s.highMemoryBase = t.highMemoryBase from hsame) ▸ .highMemoryBase
  | reserved => exact (show s.reserved = t.reserved from hsame) ▸ .reserved
  | strictness h => exact .strictness ((show s.strictness = t.strictness from hsame) ▸ h)
  | costStyle h => exact .costStyle ((show s.costStyle = t.costStyle from hsame) ▸ h)

theorem Says.not_beyond (h : Says s f j) : ¬ Beyond f j := by
  intro hb
  cases h with
  | ticksPerCycle =>
    cases hb with
    | ticksPerCycle hb => exact hb _ s.ticksPerCycle.toNat_lt_size rfl
  | highMemoryBase =>
    cases hb with
    | highMemoryBase hb => exact hb _ s.highMemoryBase.toNat_lt_size rfl
  | reserved =>
    cases hb with
    | reserved hl hb =>
      obtain ⟨op, _, hop⟩ := List.mem_map.1 hl
      cases hop
      exact hb _ op.isLt rfl
  | strictness h =>
    cases hb with
    | strictness hb => exact hb _ h
  | costStyle h =>
    cases hb with
    | costStyle hb => exact hb _ h

/-! ### The values of the fields -/

section

variable {d : Deserializer} (hd : d.Documented)

include hd

theorem opcodes_eq_ok_iff (hj : j.Spellable) {ops : List Opcode} :
    d.list (d.unsigned 256) j = .ok ops ↔ j = .array (ops.map fun op => .ofNat op.val) := by
  have hitems : ∀ js : List Json, (∀ i ∈ js, i.Spellable) →
      (List.Forall₂ (fun j op => d.unsigned 256 j = .ok op) js ops ↔ js = ops.map fun op => .ofNat op.val) := by
    intro js
    induction js generalizing ops with
    | nil =>
      intro _
      rw [List.forall₂_nil_left_iff, eq_comm (a := []), List.map_eq_nil_iff]
    | cons i js ih =>
      intro hjs
      obtain ⟨hi, hjs⟩ := List.forall_mem_cons.1 hjs
      rw [List.forall₂_cons_left_iff]
      constructor
      · rintro ⟨op, rest, hop, hrest, rfl⟩
        rw [List.map_cons, (hd.unsigned 256 i op hi).1 hop, (ih hjs).1 hrest]
      · intro hmap
        obtain ⟨op, rest, rfl, hop, hrest⟩ := List.map_eq_cons_iff.1 hmap.symm
        exact ⟨op, rest, (hd.unsigned 256 i op hi).2 hop.symm, (ih hjs).2 hrest.symm, rfl⟩
  rw [hd.list]
  constructor
  · rintro ⟨js, rfl, h⟩
    rw [(hitems js hj.items).1 h]
  · rintro rfl
    exact ⟨_, rfl, (hitems _ hj.items).2 rfl⟩

theorem strictness_eq_ok_iff {v : Strictness} :
    d.variant strictnessNames j = .ok v ↔ IsVariant (strictnessName v) j := by
  have hname : ∀ name, (name, v) ∈ strictnessNames ↔ name = strictnessName v := by
    intro name
    cases v <;> simp [strictnessNames, strictnessName]
  rw [hd.variant strictnessNames j v (by decide)]
  simp only [hname, exists_eq_left]

theorem costStyle_eq_ok_iff {v : CostStyle} :
    d.variant costStyleNames j = .ok v ↔ IsVariant (costStyleName v) j := by
  have hname : ∀ name, (name, v) ∈ costStyleNames ↔ name = costStyleName v := by
    intro name
    cases v <;> simp [costStyleNames, costStyleName]
  rw [hd.variant costStyleNames j v (by decide)]
  simp only [hname, exists_eq_left]

end

/-! ### One field -/

namespace Field

/-- The first settings with the field of the second. -/
def put : Field → Settings → Settings → Settings
  | ticksPerCycle, s, t => { s with ticksPerCycle := t.ticksPerCycle }
  | highMemoryBase, s, t => { s with highMemoryBase := t.highMemoryBase }
  | reserved, s, t => { s with reserved := t.reserved }
  | strictness, s, t => { s with strictness := t.strictness }
  | costStyle, s, t => { s with costStyle := t.costStyle }

theorem same_put (f : Field) (s t : Settings) : f.Same (f.put s t) t := by cases f <;> rfl

theorem same_put_of_ne (h : g ≠ f) (s t : Settings) : g.Same s (f.put s t) := by
  cases f <;> cases g <;> first | rfl | exact absurd rfl h

theorem put_eq (h : ∀ g, g ≠ f → g.Same s t) : f.put s t = t := by
  refine eq_of_same fun g => ?_
  by_cases hg : g = f
  · rw [hg]
    exact same_put f s t
  · exact (same_put_of_ne hg s t).symm.trans (h g hg)

/-- A reader of the field takes the values that settings can have of it, and sets the field to them. -/
def Reads (f : Field) (read : Json → Except String (Settings → Settings)) : Prop :=
  ∀ {s t j}, j.Spellable → ((∃ set, read j = .ok set ∧ set s = t) ↔ Says t f j ∧ ∀ g, g ≠ f → g.Same s t)

theorem reads_of {α : Type} {read : Json → Except String α} (set : Settings → α → Settings) (get : Settings → α)
    (hget : ∀ s v, get (set s v) = v) (hset : ∀ s t, set s (get t) = f.put s t)
    (hread : ∀ {j t}, j.Spellable → (read j = .ok (get t) ↔ Says t f j)) :
    f.Reads fun j => (read j).map fun v s => set s v := by
  intro s t j hj
  rw [← hread hj]
  constructor
  · rintro ⟨_, hset', rfl⟩
    obtain ⟨v, hv, rfl⟩ := Deserializer.map_eq_ok_iff.1 hset'
    have hput := hset s (set s v)
    rw [hget] at hput
    refine ⟨?_, fun g hg => ?_⟩
    · exact hv.trans (congrArg Except.ok (hget s v).symm)
    · have hsame := same_put_of_ne hg s (set s v)
      rwa [← hput] at hsame
  · rintro ⟨hv, hsame⟩
    exact ⟨_, Deserializer.map_eq_ok_iff.2 ⟨get t, hv, rfl⟩, by rw [hset, put_eq hsame]⟩

/-- The value that is set is the one that the settings have in the end. -/
theorem says_iff_put (hsame : f.Same t s) :
    (Says t f j ∧ ∀ g, g ≠ f → g.Same base t) ↔ Says s f j ∧ t = f.put base s := by
  constructor
  · rintro ⟨hvalue, hothers⟩
    refine ⟨hvalue.congr hsame, eq_of_same fun g => ?_⟩
    by_cases hg : g = f
    · rw [hg]
      exact hsame.trans (same_put f base s).symm
    · exact (hothers g hg).symm.trans (same_put_of_ne hg base s)
  · rintro ⟨hvalue, rfl⟩
    exact ⟨hvalue.congr (same_put f base s).symm, fun g hg => same_put_of_ne hg base s⟩

end Field

section

variable {d : Deserializer}

theorem names_fields (d : Deserializer) : (fields d).map (·.name) = Field.all.map Field.name := rfl

theorem nodup_fields (d : Deserializer) : ((fields d).map (·.name)).Nodup := by
  rw [names_fields]
  decide

theorem exists_record (d : Deserializer) (f : Field) : ∃ field ∈ fields d, field.name = f.name := by
  have hmem : f.name ∈ (fields d).map (·.name) := names_fields d ▸ List.mem_map_of_mem f.mem_all
  obtain ⟨field, hfield, hname⟩ := List.mem_map.1 hmem
  exact ⟨field, hfield, hname⟩

theorem exists_reads (hd : d.Documented) {field : RecordField Settings} (h : field ∈ fields d) :
    ∃ f : Field, field.name = f.name ∧ f.Reads field.read := by
  simp only [fields, List.mem_cons, List.not_mem_nil, or_false] at h
  obtain rfl | rfl | rfl | rfl | rfl := h
  · refine ⟨.ticksPerCycle, rfl, Field.reads_of (fun s n => { s with ticksPerCycle := .ofFin n })
      (·.ticksPerCycle.toFin) (fun _ _ => rfl) (fun _ _ => rfl) fun hj => (hd.unsigned _ _ _ hj).trans ⟨?_, ?_⟩⟩
    · rintro rfl
      exact .ticksPerCycle
    · rintro ⟨⟩
      rfl
  · refine ⟨.highMemoryBase, rfl, Field.reads_of (fun s n => { s with highMemoryBase := .ofFin n })
      (·.highMemoryBase.toFin) (fun _ _ => rfl) (fun _ _ => rfl) fun hj => (hd.unsigned _ _ _ hj).trans ⟨?_, ?_⟩⟩
    · rintro rfl
      exact .highMemoryBase
    · rintro ⟨⟩
      rfl
  · refine ⟨.reserved, rfl, Field.reads_of (fun s ops => { s with reserved := ops }) (·.reserved)
      (fun _ _ => rfl) (fun _ _ => rfl) fun hj => (opcodes_eq_ok_iff hd hj).trans ⟨?_, ?_⟩⟩
    · rintro rfl
      exact .reserved
    · rintro ⟨⟩
      rfl
  · refine ⟨.strictness, rfl, Field.reads_of (fun s v => { s with strictness := v }) (·.strictness)
      (fun _ _ => rfl) (fun _ _ => rfl) fun _ => (strictness_eq_ok_iff hd).trans ⟨.strictness, ?_⟩⟩
    rintro ⟨⟩
    assumption
  · refine ⟨.costStyle, rfl, Field.reads_of (fun s v => { s with costStyle := v }) (·.costStyle)
      (fun _ _ => rfl) (fun _ _ => rfl) fun _ => (costStyle_eq_ok_iff hd).trans ⟨.costStyle, ?_⟩⟩
    rintro ⟨⟩
    assumption

theorem reads_of_name (hd : d.Documented) {field : RecordField Settings} (h : field ∈ fields d)
    (hname : field.name = f.name) : f.Reads field.read := by
  obtain ⟨g, hg, hreads⟩ := exists_reads hd h
  rwa [Field.name_inj (hg.symm.trans hname)] at hreads

end

/-! ### All members -/

theorem holds_nil : Holds base [] s ↔ s = base := by
  constructor
  · intro h
    exact (eq_of_same fun f => h.rest f (by simp)).symm
  · rintro rfl
    exact ⟨by simp, .nil, by simp, fun f _ => .refl f _⟩

theorem holds_cons_other (hkey : (Json.decode? m.1).isSome = true) (hm : ∀ f : Field, ¬ f.Names m) :
    Holds base (m :: ms) s ↔ Holds base ms s := by
  constructor
  · intro h
    exact {
      keys := fun n hn => h.keys n (by simp [hn])
      once := (List.pairwise_cons.1 h.once).2
      values := fun n hn => h.values n (by simp [hn])
      rest := fun f hf => h.rest f (List.forall_mem_cons.2 ⟨hm f, hf⟩) }
  · intro h
    exact {
      keys := List.forall_mem_cons.2 ⟨hkey, h.keys⟩
      once := List.pairwise_cons.2 ⟨fun _ _ f hf => absurd hf (hm f), h.once⟩
      values := List.forall_mem_cons.2 ⟨fun f hf => absurd hf (hm f), h.values⟩
      rest := fun f hf => h.rest f (List.forall_mem_cons.1 hf).2 }

/-- A member that names a field sets it, and no later one does. -/
theorem holds_cons_field (hm : f.Names m) : Holds base (m :: ms) s ↔
    Says s f m.2 ∧ (∀ n ∈ ms, ¬ f.Names n) ∧ Holds (f.put base s) ms s := by
  constructor
  · intro h
    obtain ⟨hhead, honce⟩ := List.pairwise_cons.1 h.once
    refine ⟨h.values m (by simp) f hm, fun n hn => hhead n hn f hm, ?_⟩
    exact {
      keys := fun n hn => h.keys n (by simp [hn])
      once := honce
      values := fun n hn => h.values n (by simp [hn])
      rest := by
        intro g hg
        by_cases hgf : g = f
        · rw [hgf]
          exact Field.same_put f base s
        · refine (Field.same_put_of_ne hgf base s).symm.trans (h.rest g (List.forall_mem_cons.2 ⟨?_, hg⟩))
          exact fun hgm => hgf (hgm.eq hm) }
  · rintro ⟨hvalue, hlater, h⟩
    exact {
      keys := List.forall_mem_cons.2 ⟨by rw [hm]; rfl, h.keys⟩
      once := List.pairwise_cons.2 ⟨fun n hn g hg => hg.eq hm ▸ hlater n hn, h.once⟩
      values := List.forall_mem_cons.2 ⟨fun g hg => hg.eq hm ▸ hvalue, h.values⟩
      rest := by
        intro g hg
        obtain ⟨hgm, hg⟩ := List.forall_mem_cons.1 hg
        exact (Field.same_put_of_ne (by rintro rfl; exact hgm hm) base s).trans (h.rest g hg) }

section

variable {seen : List String} {d : Deserializer}

theorem SetBy.key {fields : List (RecordField Settings)} (h : SetBy fields seen base (m :: ms) s) :
    (Json.decode? m.1).isSome = true := by
  cases h with
  | other hkey => rw [hkey]; rfl
  | field hkey => rw [hkey]; rfl

theorem setBy_cons_other (hkey : (Json.decode? m.1).isSome = true) (hm : ∀ f : Field, ¬ f.Names m) :
    SetBy (fields d) seen base (m :: ms) s ↔ SetBy (fields d) seen base ms s := by
  constructor
  · intro h
    cases h with
    | other _ _ h => exact h
    | field hnamed hf =>
      have hmem := List.mem_map_of_mem (f := (·.name)) hf
      rw [names_fields] at hmem
      obtain ⟨f, -, hname⟩ := List.mem_map.1 hmem
      exact absurd (hnamed.trans (congrArg some hname.symm)) (hm f)
  · intro h
    obtain ⟨name, hkey⟩ := Option.isSome_iff_exists.1 hkey
    refine .other hkey (fun field hf hname => ?_) h
    have hmem := List.mem_map_of_mem (f := (·.name)) hf
    rw [names_fields] at hmem
    obtain ⟨f, -, hfield⟩ := List.mem_map.1 hmem
    exact hm f (by rw [Field.Names, hkey, hfield, hname])

theorem setBy_cons_field (hd : d.Documented) (hm : f.Names m) (hj : m.2.Spellable) :
    SetBy (fields d) seen base (m :: ms) s ↔ f.name ∉ seen ∧ ∃ t, (Says t f m.2 ∧ ∀ g, g ≠ f → g.Same base t) ∧
      SetBy (fields d) (f.name :: seen) t ms s := by
  constructor
  · intro h
    cases h with
    | other hkey hname =>
      obtain ⟨field, hfield, heq⟩ := exists_record d f
      exact absurd (heq.trans (Option.some.inj (hm.symm.trans hkey))) (hname field hfield)
    | field hkey hf hnew hv h =>
      have hname := Option.some.inj (hkey.symm.trans hm)
      rw [hname] at hnew h
      exact ⟨hnew, _, (reads_of_name hd hf hname hj).1 ⟨_, hv, rfl⟩, h⟩
  · rintro ⟨hnew, t, ht, h⟩
    obtain ⟨field, hfield, hname⟩ := exists_record d f
    obtain ⟨set, hv, rfl⟩ := (reads_of_name hd hfield hname hj).2 ht
    rw [← hname] at hnew h
    exact .field (hm.trans (congrArg some hname.symm)) hfield hnew hv h

/-- No member names a field that is already set. -/
def Fresh (seen : List String) (ms : List (String × Json)) : Prop := ∀ m ∈ ms, ∀ f : Field, f.Names m → f.name ∉ seen

theorem fresh_cons_field (hm : f.Names m) :
    Fresh seen (m :: ms) ∧ (∀ n ∈ ms, ¬ f.Names n) ↔ f.name ∉ seen ∧ Fresh (f.name :: seen) ms := by
  constructor
  · rintro ⟨h, hlater⟩
    obtain ⟨hhead, htail⟩ := List.forall_mem_cons.1 h
    refine ⟨hhead f hm, fun n hn g hg hmem => ?_⟩
    obtain hgf | hmem := List.mem_cons.1 hmem
    · exact hlater n hn (Field.name_inj hgf ▸ hg)
    · exact htail n hn g hg hmem
  · rintro ⟨hseen, h⟩
    refine ⟨List.forall_mem_cons.2 ⟨fun g hg => hg.eq hm ▸ hseen, ?_⟩, ?_⟩
    · exact fun n hn g hg hmem => h n hn g hg (List.mem_cons_of_mem _ hmem)
    · exact fun n hn hf => h n hn f hf List.mem_cons_self

/-- By the members. A field that is set is among the seen ones, so no later member sets it again, and its value
is the one that the settings have in the end. -/
theorem setBy_iff (hd : d.Documented) (hms : ∀ m ∈ ms, m.2.Spellable) :
    SetBy (fields d) seen base ms s ↔ Fresh seen ms ∧ Holds base ms s := by
  induction ms generalizing seen base with
  | nil =>
    rw [holds_nil]
    constructor
    · intro h
      cases h
      exact ⟨by simp [Fresh], rfl⟩
    · rintro ⟨-, rfl⟩
      exact .nil seen s
  | cons m ms ih =>
    obtain ⟨hspell, hms⟩ := List.forall_mem_cons.1 hms
    by_cases hnamed : ∃ f : Field, f.Names m
    · obtain ⟨f, hm⟩ := hnamed
      rw [setBy_cons_field hd hm hspell, holds_cons_field hm, and_left_comm, ← and_assoc (a := Fresh seen (m :: ms)),
        fresh_cons_field hm]
      constructor
      · rintro ⟨hnew, t, ht, h⟩
        obtain ⟨hfresh, hholds⟩ := (ih hms).1 h
        have hlater := ((fresh_cons_field hm).2 ⟨hnew, hfresh⟩).2
        obtain ⟨hvalue, rfl⟩ := (Field.says_iff_put (hholds.rest f hlater)).1 ht
        exact ⟨hvalue, ⟨hnew, hfresh⟩, hholds⟩
      · rintro ⟨hvalue, ⟨hnew, hfresh⟩, hholds⟩
        have hput := (Field.says_iff_put (Field.same_put f base s)).2 ⟨hvalue, rfl⟩
        exact ⟨hnew, _, hput, (ih hms).2 ⟨hfresh, hholds⟩⟩
    · have hother : ∀ f : Field, ¬ f.Names m := fun f hf => hnamed ⟨f, hf⟩
      cases hkey : Json.decode? m.1 with
      | none =>
        refine iff_of_false (fun h => ?_) fun h => ?_
        · have hsome := SetBy.key h
          rw [hkey] at hsome
          cases hsome
        · have hsome := h.2.keys m (by simp)
          rw [hkey] at hsome
          cases hsome
      | some key =>
        have hsome : (Json.decode? m.1).isSome = true := by rw [hkey]; rfl
        rw [setBy_cons_other hsome hother, ih hms, holds_cons_other hsome hother, Fresh, Fresh, List.forall_mem_cons,
          and_iff_right fun f hf => absurd hf (hother f)]

end

/-! ### Texts -/

/-- The members that a text gives: those of an object, or the items of an array with the names of the first
fields. -/
inductive Gives (text : String) : List (String × Json) → Prop
  | object {ms : List (String × Json)} (h : Json.Spelled text (.object ms)) : Gives text ms
  | array {js : List Json} (h : Json.Spelled text (.array js)) (hlength : js.length ≤ Field.all.length) :
      Gives text ((Field.all.map Field.name).zip js)

section

variable {d : Deserializer}

theorem decode?_name_of_mem {field : RecordField Settings} (h : field ∈ fields d) :
    Json.decode? field.name = some field.name := by
  have hnames : ∀ name ∈ Field.all.map Field.name, Json.decode? name = some name := by decide
  exact hnames field.name (names_fields d ▸ List.mem_map_of_mem h)

/-- Items set the fields that have their places, like members of the same names. -/
theorem setInOrder_iff {fs : List (RecordField Settings)} {js : List Json} {seen : List String}
    (hfs : ∀ field ∈ fs, field ∈ fields d) (hnodup : (fs.map (·.name)).Nodup)
    (hfresh : ∀ field ∈ fs, field.name ∉ seen) : SetInOrder fs base js s ↔
      js.length ≤ fs.length ∧ SetBy (fields d) seen base ((fs.map (·.name)).zip js) s := by
  induction js generalizing fs seen base with
  | nil =>
    rw [List.zip_nil_right]
    constructor
    · intro h
      cases h
      exact ⟨Nat.zero_le _, .nil seen _⟩
    · rintro ⟨-, h⟩
      cases h
      exact .nil fs _
  | cons j js ih =>
    cases fs with
    | nil => exact iff_of_false nofun fun h => absurd h.1 (by simp)
    | cons field fs =>
      obtain ⟨hfield, hfs⟩ := List.forall_mem_cons.1 hfs
      obtain ⟨hnot, hnodup⟩ := List.nodup_cons.1 hnodup
      obtain ⟨hnew, hfresh⟩ := List.forall_mem_cons.1 hfresh
      have hrest : ∀ t, SetInOrder fs t js s ↔
          js.length ≤ fs.length ∧ SetBy (fields d) (field.name :: seen) t ((fs.map (·.name)).zip js) s := by
        intro t
        refine ih hfs hnodup fun g hg hmem => ?_
        obtain heq | hmem := List.mem_cons.1 hmem
        · exact hnot (List.mem_map.2 ⟨g, hg, heq⟩)
        · exact hfresh g hg hmem
      have hkey := decode?_name_of_mem hfield
      rw [List.map_cons, List.zip_cons_cons, List.length_cons, List.length_cons, Nat.add_le_add_iff_right]
      constructor
      · intro h
        cases h with
        | cons hv h =>
          obtain ⟨hlength, h⟩ := (hrest _).1 h
          exact ⟨hlength, .field hkey hfield hnew hv h⟩
      · rintro ⟨hlength, h⟩
        cases h with
        | other hkey' hname => exact absurd (Option.some.inj (hkey.symm.trans hkey')) (hname field hfield)
        | field hkey' hf hnew' hv h =>
          rename_i field' set
          have hname : field.name = field'.name := Option.some.inj (hkey.symm.trans hkey')
          obtain rfl : field = field' := List.inj_on_of_nodup_map (nodup_fields d) hfield hf hname
          exact .cons hv ((hrest _).2 ⟨hlength, h⟩)

variable {text : String}

theorem Gives.spellable (h : Gives text ms) : ∀ m ∈ ms, m.2.Spellable := by
  cases h with
  | object h => exact (Json.Spells.spellable h).members
  | array h _ =>
    intro m hm
    exact (Json.Spells.spellable h).items m.2 (List.of_mem_zip hm).2

theorem read_eq_ok_iff (hd : d.Documented) {j : Json} (h : Json.Spelled text j) :
    d.tree text >>= ofJson d = .ok s ↔ ofJson d j = .ok s := by
  rw [(hd.tree text j).2 h]
  exact Iff.rfl

theorem exists_gives (hd : d.Documented) (h : d.tree text >>= ofJson d = .ok s) : ∃ ms, Gives text ms := by
  obtain ⟨j, hj, h⟩ := Deserializer.bind_eq_ok_iff.1 h
  have hspelled := (hd.tree text j).1 hj
  obtain ⟨ms, rfl⟩ | ⟨js, rfl⟩ := hd.other _ _ _ _ h
  · exact ⟨ms, .object hspelled⟩
  · have horder := (hd.array _ _ _ _).1 h
    have hlength := ((setInOrder_iff (fun _ hf => hf) (nodup_fields d) fun _ _ => List.not_mem_nil).1 horder).1
    exact ⟨_, .array hspelled hlength⟩

theorem Gives.read_eq_ok_iff (hd : d.Documented) (h : Gives text ms) :
    d.tree text >>= ofJson d = .ok s ↔ Holds default ms s := by
  have hset : SetBy (fields d) [] default ms s ↔ Holds default ms s := by
    rw [setBy_iff hd h.spellable]
    exact and_iff_right fun _ _ _ _ => List.not_mem_nil
  rw [← hset]
  cases h with
  | object h => exact (Settings.read_eq_ok_iff hd h).trans (hd.object _ _ _ _ (nodup_fields d))
  | array h hlength =>
    rw [Settings.read_eq_ok_iff hd h]
    refine (hd.array _ _ _ _).trans ((setInOrder_iff (fun _ hf => hf) (nodup_fields d) fun _ _ =>
      List.not_mem_nil).trans (and_iff_right hlength))

end

/-! ### Settings as a text -/

namespace Field

def value : Field → Settings → Json
  | ticksPerCycle, s => .ofNat s.ticksPerCycle.toNat
  | highMemoryBase, s => .ofNat s.highMemoryBase.toNat
  | reserved, s => .array (s.reserved.map fun op => .ofNat op.val)
  | strictness, s => .ofString (strictnessName s.strictness)
  | costStyle, s => .ofString (costStyleName s.costStyle)

theorem decode?_name (f : Field) : Json.decode? f.name = some f.name := by cases f <;> decide

theorem says_value (f : Field) (s : Settings) : Says s f (f.value s) := by
  cases f with
  | ticksPerCycle => exact .ticksPerCycle
  | highMemoryBase => exact .highMemoryBase
  | reserved => exact .reserved
  | strictness => exact .strictness (.string (by cases s.strictness <;> decide))
  | costStyle => exact .costStyle (.string (by cases s.costStyle <;> decide))

theorem spellable_value (f : Field) (s : Settings) : (f.value s).Spellable := by
  cases f with
  | ticksPerCycle => exact Json.spellable_ofNat _
  | highMemoryBase => exact Json.spellable_ofNat _
  | reserved =>
    refine Json.spellable_array fun j hj => ?_
    obtain ⟨op, -, rfl⟩ := List.mem_map.1 hj
    exact Json.spellable_ofNat _
  | strictness => exact Json.spellable_string (Json.isLiteral_of_plain (by cases s.strictness <;> decide))
  | costStyle => exact Json.spellable_string (Json.isLiteral_of_plain (by cases s.costStyle <;> decide))

theorem isLiteral_name (f : Field) : Json.IsLiteral f.name.toList :=
  Json.isLiteral_of_plain (by cases f <;> decide)

theorem names_iff (s : Settings) : g.Names (f.name, f.value s) ↔ f = g := by
  rw [Names, decode?_name, Option.some.injEq]
  exact ⟨name_inj, congrArg name⟩

end Field

theorem toMembers_eq (s : Settings) : s.toMembers = Field.all.map fun f => (f.name, f.value s) := rfl

/-- The members are some fields with their values and others besides, in any order; the fields that are left out
have their defaults. -/
inductive Lists (base s : Settings) : List (String × Json) → Prop
  | intro {fs : List Field} {others ms : List (String × Json)} (hfs : fs.Nodup)
      (homitted : ∀ f, f ∉ fs → f.Same base s)
      (hothers : ∀ m ∈ others, (Json.decode? m.1).isSome = true ∧ ∀ f : Field, ¬ f.Names m)
      (hperm : ms.Perm (fs.map (fun f => (f.name, f.value s)) ++ others)) : Lists base s ms

theorem lists_toMembers (base s : Settings) : Lists base s s.toMembers :=
  @Lists.intro base s Field.all [] s.toMembers (by decide) (fun f hf => absurd f.mem_all hf) (by simp) (.refl _)

theorem Lists.mem (h : Lists base s ms) (hm : m ∈ ms) :
    (∃ f : Field, m = (f.name, f.value s)) ∨ (Json.decode? m.1).isSome = true ∧ ∀ f : Field, ¬ f.Names m := by
  cases h with
  | intro _ _ hothers hperm =>
    obtain hm | hm := List.mem_append.1 (hperm.mem_iff.1 hm)
    · obtain ⟨f, -, rfl⟩ := List.mem_map.1 hm
      exact .inl ⟨f, rfl⟩
    · exact .inr (hothers m hm)

theorem Lists.once (h : Lists base s ms) : ms.Pairwise fun m n => ∀ f : Field, f.Names m → ¬ f.Names n := by
  cases h with
  | intro hfs _ hothers hperm =>
    refine (hperm.pairwise_iff fun h f hn hm => h f hm hn).2 (List.pairwise_append.2 ⟨?_, ?_, ?_⟩)
    · refine List.pairwise_map.2 (hfs.imp fun hne g hf hg => ?_)
      exact hne (((Field.names_iff s).1 hf).trans ((Field.names_iff s).1 hg).symm)
    · exact List.pairwise_of_forall_mem_list fun m _ n hn f _ => (hothers n hn).2 f
    · exact fun m _ n hn f _ => (hothers n hn).2 f

theorem Lists.holds (h : Lists base s ms) : Holds base ms s where
  keys m hm := by
    obtain ⟨f, rfl⟩ | hother := h.mem hm
    · rw [f.decode?_name]
      rfl
    · exact hother.1
  once := h.once
  values m hm g hg := by
    obtain ⟨f, rfl⟩ | hother := h.mem hm
    · rw [← (Field.names_iff s).1 hg]
      exact f.says_value s
    · exact absurd hg (hother.2 g)
  rest f hf := by
    cases h with
    | intro _ homitted _ hperm =>
      refine homitted f fun hmem => hf (f.name, f.value s) (hperm.mem_iff.2 ?_) ((Field.names_iff s).2 rfl)
      exact List.mem_append_left _ (List.mem_map.2 ⟨f, hmem, rfl⟩)

theorem gives_compact (h : ∀ m ∈ ms, Json.IsLiteral m.1.toList ∧ m.2.Spellable) :
    Gives (Json.object ms).compact ms :=
  .object (Json.Spellable.spelled_compact (Json.spellable_object h))

theorem gives_toJson (s : Settings) : Gives s.toJson.compact s.toMembers := by
  refine gives_compact fun m hm => ?_
  obtain ⟨f, -, rfl⟩ := List.mem_map.1 (toMembers_eq s ▸ hm)
  exact ⟨f.isLiteral_name, f.spellable_value s⟩

/-! ### Reading a text -/

section

variable (d : Deserializer)

/-- What is read of a text, by the members that it gives. -/
structure Understood (text : String) : Prop where
  accepts : ∀ ms s, Gives text ms → Holds default ms s → s.ticksPerCycle ≠ 0 → parse d text = .ok s
  zero : ∀ ms s, Gives text ms → Holds default ms s → s.ticksPerCycle = 0 →
    parse d text = .error (.invalid .zeroTicks)
  beyond : ∀ ms m f, Gives text ms → m ∈ ms → f.Names m → Beyond f m.2 →
    ∃ reason, parse d text = .error (.malformed reason)
  only : ∀ s, parse d text = .ok s → s.ticksPerCycle ≠ 0 ∧ ∃ ms, Gives text ms ∧ Holds default ms s

/-- What is written of settings. -/
structure Written (s : Settings) : Prop where
  text : Gives s.toJson.compact s.toMembers
  members : Lists default s s.toMembers
  holds : ∀ ms, Lists default s ms → Holds default ms s
  restored : s.ticksPerCycle ≠ 0 → parse d s.toJson.compact = .ok s

variable {d} (hd : d.Documented)

include hd

theorem understood (text : String) : Understood d text where
  accepts ms s hgives hholds hticks := by
    rw [parse, (hgives.read_eq_ok_iff hd).2 hholds]
    simp only [validate, if_neg hticks]
  zero ms s hgives hholds hticks := by
    rw [parse, (hgives.read_eq_ok_iff hd).2 hholds]
    simp only [validate, if_pos hticks]
  beyond ms m f hgives hm hf hbeyond := by
    cases hread : d.tree text >>= ofJson d with
    | error reason => exact ⟨reason, by rw [parse, hread]⟩
    | ok s => exact absurd hbeyond (((hgives.read_eq_ok_iff hd).1 hread).values m hm f hf).not_beyond
  only s h := by
    rw [parse] at h
    split at h
    · cases h
    · next t hread =>
      rw [validate] at h
      split at h
      · next hvalid =>
        cases h
        obtain ⟨ms, hgives⟩ := exists_gives hd hread
        refine ⟨?_, ms, hgives, (hgives.read_eq_ok_iff hd).1 hread⟩
        intro hticks
        rw [if_pos hticks] at hvalid
        cases hvalid
      · cases h

theorem written (s : Settings) : Written d s where
  text := gives_toJson s
  members := lists_toMembers default s
  holds _ h := h.holds
  restored := (understood hd _).accepts s.toMembers s (gives_toJson s) (lists_toMembers default s).holds

end

/-- A text is read as the settings that it holds, and settings are read back from each text that holds them. -/
theorem settings_restored {d : Deserializer} (hd : d.Documented) (text : String) (s : Settings) :
    Understood d text ∧ Written d s :=
  ⟨understood hd text, written hd s⟩

/-- Two of the fields in a text, out of their order and with another member between them; a text without ticks
in a cycle; and one with a base that does not fit. -/
theorem restored_by_standard :
    let text := "\x7b\"cost_style\":\"not_taken\",\"note\":[null],\"ticks_per_cycle\":8\x7d"
    let zero := "\x7b\"ticks_per_cycle\":0\x7d"
    let beyond := "\x7b\"high_memory_base\":65536\x7d"
    Deserializer.standard.Documented ∧
      parse .standard text = .ok { ticksPerCycle := 8, costStyle := .notTaken } ∧
      parse .standard zero = .error (.invalid .zeroTicks) ∧
      ∃ reason, parse .standard beyond = .error (.malformed reason) := by
  intro text zero beyond
  have hd := Deserializer.documented_standard
  let s : Settings := { ticksPerCycle := 8, costStyle := .notTaken }
  let z : Settings := { ticksPerCycle := 0 }
  let member (f : Field) (s : Settings) : String × Json := (f.name, f.value s)
  let note : String × Json := ("note", .array [.null])
  have hmember : ∀ f s, Json.IsLiteral (member f s).1.toList ∧ (member f s).2.Spellable := fun f s =>
    ⟨f.isLiteral_name, f.spellable_value s⟩
  have hnote : Json.IsLiteral note.1.toList ∧ note.2.Spellable :=
    ⟨Json.isLiteral_of_plain (by decide), Json.spellable_array (List.forall_mem_singleton.2 ⟨_, .null⟩)⟩
  have htext : Gives text [member .costStyle s, note, member .ticksPerCycle s] := by
    have hcompact : text = (Json.object [member .costStyle s, note, member .ticksPerCycle s]).compact := by decide
    rw [hcompact]
    refine gives_compact (List.forall_mem_cons.2 ⟨hmember _ s, List.forall_mem_cons.2 ⟨hnote, ?_⟩⟩)
    exact List.forall_mem_singleton.2 (hmember _ s)
  have hzero : Gives zero [member .ticksPerCycle z] := by
    have hcompact : zero = (Json.object [member .ticksPerCycle z]).compact := by decide
    rw [hcompact]
    exact gives_compact (List.forall_mem_singleton.2 (hmember _ z))
  have hbeyond : Gives beyond [("high_memory_base", .ofNat 65536)] := by
    have hcompact : beyond = (Json.object [("high_memory_base", .ofNat 65536)]).compact := by decide
    rw [hcompact]
    exact gives_compact (List.forall_mem_singleton.2
      ⟨Field.isLiteral_name .highMemoryBase, Json.spellable_ofNat 65536⟩)
  have hperm : [member .costStyle s, note, member .ticksPerCycle s].Perm
      ([member .costStyle s, member .ticksPerCycle s] ++ [note]) := (List.Perm.swap _ note []).cons _
  have hlists : Lists default s [member .costStyle s, note, member .ticksPerCycle s] := by
    refine @Lists.intro default s [.costStyle, .ticksPerCycle] [note] _ (by decide) (fun f hf => ?_)
      (List.forall_mem_singleton.2 ⟨by decide, fun f => ?_⟩) hperm
    · cases f with
      | ticksPerCycle | costStyle => exact absurd hf (by decide)
      | highMemoryBase | reserved | strictness => rfl
    · unfold Field.Names
      cases f <;> decide
  have hlistsZero : Lists default z [member .ticksPerCycle z] := by
    refine @Lists.intro default z [.ticksPerCycle] [] _ (by decide) (fun f hf => ?_) nofun (.refl _)
    cases f with
    | ticksPerCycle => exact absurd hf (by decide)
    | highMemoryBase | reserved | strictness | costStyle => rfl
  have houtside : Beyond .highMemoryBase (.ofNat 65536) := by
    refine .highMemoryBase fun n hn heq => ?_
    have hvalue := Numeral.natural?_decimal n
    rw [← heq, Numeral.natural?_decimal] at hvalue
    exact absurd (Option.some.inj hvalue ▸ hn) (by decide)
  refine ⟨hd, ?_, ?_, ?_⟩
  · exact (settings_restored hd text s).1.accepts _ s htext hlists.holds (by decide)
  · exact (settings_restored hd zero z).1.zero _ z hzero hlistsZero.holds rfl
  · exact (settings_restored hd beyond s).1.beyond _ _ .highMemoryBase hbeyond List.mem_cons_self rfl houtside

end Settings
end OpcodeDispatch

import JsonLisp.Proofs.Simulation.Evaluation
import JsonLisp.Proofs.Value.Parts
import Mathlib.Order.CompleteBooleanAlgebra
import Mathlib.Order.CompletePartialOrder

/-!
# Well-formed values

Programs make finite numbers, maps with distinct keys, closures of `fn` forms with parameters, and
references to the global primitives alone. Evaluation stays among such values: they are a
simulation of each run by itself. Several errors that would need other values cannot occur.

## Main definitions

* `Value.WellFormed`: these conditions at every depth.
* `State.WellFormed`: tables with well-formed values and transformers.
* `Error.Ordinary`: the errors that can occur in a state of this kind.
* `Simulation.wellFormed`.
-/

namespace JsonLisp

open List (Forall₂)

namespace Value

/-- What makes a value well formed apart from its parts. -/
def Proper : Value → Prop
  | .float x => x.isFinite = true
  | .map entries => (entries.map Prod.fst).Nodup
  | .closure _ form _ => ∃ params body, form = .text SpecialForm.fnName :: params :: body
  | .builtin name => name ∈ Primitive.globalNames
  | _ => True

/-- Finite numbers, distinct keys, parameters in each closure and the names of global primitives,
also in code and in captured environments. -/
def WellFormed (v : Value) : Prop := v.Everywhere Proper

@[simp] theorem wellFormed_null : null.WellFormed := (everywhere_atom rfl).2 trivial

@[simp] theorem wellFormed_int (n : Int) : (int n).WellFormed := (everywhere_atom rfl).2 trivial

@[simp] theorem wellFormed_float {x : Binary64} :
    (float x).WellFormed ↔ x.isFinite = true := everywhere_atom rfl

@[simp] theorem wellFormed_text (t : Text) : (text t).WellFormed :=
  (everywhere_atom rfl).2 trivial

@[simp] theorem wellFormed_bool (b : Bool) : (bool b).WellFormed :=
  (everywhere_atom rfl).2 trivial

@[simp] theorem wellFormed_list {items : List Value} :
    (list items).WellFormed ↔ ∀ v ∈ items, v.WellFormed :=
  everywhere_list.trans (and_iff_right trivial)

@[simp] theorem wellFormed_map {entries : List (Text × Value)} : (map entries).WellFormed ↔
    (entries.map Prod.fst).Nodup ∧ ∀ e ∈ entries, e.2.WellFormed :=
  everywhere_map

theorem isSome_ofName? {name : Text} (h : name ∈ Primitive.globalNames) :
    (Primitive.ofName? name).isSome = true := by
  revert name
  decide

theorem displayItems_eq_error {vs : List Value} {e : Error} (h : displayItems vs = .error e) :
    ∃ v ∈ vs, v.display = .error e := by
  induction vs with
  | nil => cases h
  | cons v rest ih =>
    obtain hv | ⟨shown, -, h⟩ := error_or_of_bind_eq_error h
    · exact ⟨v, List.mem_cons_self, hv⟩
    · obtain hrest | ⟨shownRest, -, h⟩ := error_or_of_bind_eq_error h
      · obtain ⟨u, hu, hfail⟩ := ih hrest
        exact ⟨u, List.mem_cons_of_mem v hu, hfail⟩
      · cases h

theorem displayEntries_eq_error {es : List (Text × Value)} {e : Error}
    (h : displayEntries es = .error e) : ∃ entry ∈ es, entry.2.display = .error e := by
  induction es with
  | nil => cases h
  | cons entry rest ih =>
    obtain hv | ⟨shown, -, h⟩ := error_or_of_bind_eq_error h
    · exact ⟨entry, List.mem_cons_self, hv⟩
    · obtain hrest | ⟨shownRest, -, h⟩ := error_or_of_bind_eq_error h
      · obtain ⟨other, hother, hfail⟩ := ih hrest
        exact ⟨other, List.mem_cons_of_mem entry hother, hfail⟩
      · cases h

/-- The display form of a well-formed value fails for nothing but the length of an integer. -/
theorem WellFormed.display_eq_error {v : Value} {e : Error} (hv : v.WellFormed)
    (h : v.display = .error e) : e = .unprintable := by
  induction v with
  | int n =>
    rw [display, displayInt] at h
    split at h
    · cases h
      rfl
    · cases h
  | list items ih =>
    obtain hitems | ⟨shown, -, h⟩ := error_or_of_bind_eq_error h
    · obtain ⟨v, hmem, hfail⟩ := displayItems_eq_error hitems
      exact ih v hmem (wellFormed_list.1 hv v hmem) hfail
    · cases h
  | map entries ih =>
    obtain hentries | ⟨shown, -, h⟩ := error_or_of_bind_eq_error h
    · obtain ⟨entry, hmem, hfail⟩ := displayEntries_eq_error hentries
      exact ih entry hmem ((everywhere_map.1 hv).2 entry hmem) hfail
    · cases h
  | closure identity form scope hform _ =>
    obtain ⟨⟨params, body, rfl⟩, hcode, -⟩ := everywhere_closure.1 hv
    obtain hparams | ⟨shown, -, h⟩ := error_or_of_bind_eq_error h
    · have hmem : params ∈ Value.text SpecialForm.fnName :: params :: body := by simp
      exact hform params hmem (hcode params hmem) hparams
    · obtain hbody | ⟨shownBody, -, h⟩ := error_or_of_bind_eq_error h
      · obtain ⟨v, hv, hfail⟩ := displayItems_eq_error hbody
        have hmem : v ∈ Value.text SpecialForm.fnName :: params :: body := by simp [hv]
        exact hform v hmem (hcode v hmem) hfail
      · cases h
  | null | bool | float | text | builtin => cases h

end Value

/-- Global values are well formed, and so are the transformers, except for that of `let`. -/
structure State.WellFormed (s : State) : Prop where
  globals : ∀ e ∈ s.globals.entries, e.2.WellFormed
  macros : ∀ e ∈ s.macros.entries,
    (e.1 = Primitive.letName ∧ e.2 = .builtin Primitive.letName) ∨
      (e.2.WellFormed ∧ e.2.IsTransformer)

/-- An error of the language that does not refer to a missing primitive, or a message that would
show an integer too long for a text. -/
def Error.Ordinary (e : Error) : Prop := e.kind.isForeseen = true ∨ e.kind = .unprintable

namespace Simulation

/-- A well-formed value beside itself. -/
def Twin (a b : Value) : Prop := a = b ∧ a.WellFormed

theorem twins_iff {xs ys : List Value} :
    Forall₂ Twin xs ys ↔ xs = ys ∧ ∀ v ∈ xs, v.WellFormed := by
  constructor
  · intro h
    induction h with
    | nil => exact ⟨rfl, fun _ hv => absurd hv List.not_mem_nil⟩
    | cons hab _ ih =>
      obtain ⟨rfl, ha⟩ := hab
      obtain ⟨rfl, hrest⟩ := ih
      exact ⟨rfl, List.forall_mem_cons.2 ⟨ha, hrest⟩⟩
  · rintro ⟨rfl, h⟩
    exact List.forall₂_same.2 fun v hv => ⟨rfl, h v hv⟩

theorem twinEntries_iff {es fs : List (Text × Value)} :
    Forall₂ (SameName Twin) es fs ↔ es = fs ∧ ∀ e ∈ es, e.2.WellFormed := by
  constructor
  · intro h
    induction h with
    | nil => exact ⟨rfl, fun _ he => absurd he List.not_mem_nil⟩
    | cons hab _ ih =>
      obtain ⟨hname, hvalue, ha⟩ := hab
      obtain ⟨rfl, hrest⟩ := ih
      exact ⟨congrArg (· :: _) (Prod.ext hname hvalue), List.forall_mem_cons.2 ⟨ha, hrest⟩⟩
  · rintro ⟨rfl, h⟩
    exact List.forall₂_same.2 fun e he => ⟨rfl, rfl, h e he⟩

/-- The same environment with well-formed bindings. -/
def TwinScope (env env' : Environment) : Prop := env = env' ∧ ∀ b ∈ env.items, b.2.WellFormed

theorem twin_similar {a : Value} (h : a.WellFormed) : Value.Similar Twin TwinScope a a := by
  cases a with
  | null => exact .null
  | bool b => exact .bool b
  | int n => exact .int n
  | float x => exact .float x
  | text t => exact .text t
  | builtin name => exact .builtin name
  | list items => exact .list (twins_iff.2 ⟨rfl, Value.wellFormed_list.1 h⟩)
  | map entries => exact .map (twinEntries_iff.2 ⟨rfl, (Value.everywhere_map.1 h).2⟩)
  | closure i form scope =>
    obtain ⟨-, hform, hscope⟩ := Value.everywhere_closure.1 h
    exact .closure (twins_iff.2 ⟨rfl, hform⟩) ⟨rfl, hscope⟩

theorem twin_atom {a : Value} (hatom : a.isAtom = true) (h : a.Proper) : Twin a a :=
  ⟨rfl, (Value.everywhere_atom hatom).2 h⟩

/-- Each run of well-formed values beside itself. -/
def wellFormed : Simulation Unit where
  Val _ := Twin
  Env _ := TwinScope
  St _ s t := s = t ∧ s.WellFormed
  Possible := Error.Ordinary
  val_mono _ h := h
  env_mono _ h := h
  val_similar h := by
    obtain ⟨rfl, ha⟩ := h
    exact twin_similar ha
  val_identity h h' := by
    cases h.1
    cases h'.1
    rfl
  val_wire h := by rw [h.1]
  val_display h := by rw [h.1]
  val_null _ := twin_atom rfl trivial
  val_bool _ _ := twin_atom rfl trivial
  val_int _ _ := twin_atom rfl trivial
  val_float _ _ h := twin_atom rfl h
  val_text _ _ := twin_atom rfl trivial
  val_list h := by
    obtain ⟨rfl, hitems⟩ := twins_iff.1 h
    exact ⟨rfl, Value.wellFormed_list.2 hitems⟩
  val_map hnodup h := by
    obtain ⟨rfl, hentries⟩ := twinEntries_iff.1 h
    exact ⟨rfl, Value.everywhere_map.2 ⟨hnodup, hentries⟩⟩
  val_sameKeys hmap hkeys h := by
    obtain ⟨rfl, hentries⟩ := twinEntries_iff.1 h
    have hnodup := (Value.everywhere_map.1 hmap.2).1
    exact ⟨rfl, Value.everywhere_map.2 ⟨by rwa [Value.Proper, hkeys], hentries⟩⟩
  env_root _ := ⟨rfl, fun _ hb => absurd hb List.not_mem_nil⟩
  env_find name h := by
    rw [Environment.find?_eq_items, Environment.find?_eq_items]
    exact valueUnder?_rel (twinEntries_iff.2 ⟨congrArg Environment.items h.1, h.2⟩) name
  env_extend henv hframe := by
    obtain ⟨rfl, hitems⟩ := henv
    obtain ⟨rfl, hbound⟩ := twinEntries_iff.1 hframe
    refine ⟨rfl, fun b hb => ?_⟩
    obtain hb | hb := List.mem_append.1 hb
    · exact hbound b hb
    · exact hitems b hb
  st_globals name h := by
    obtain ⟨rfl, hs⟩ := h
    exact valueUnder?_rel (twinEntries_iff.2 ⟨rfl, hs.globals⟩) name
  st_names h := by rw [h.1]
  st_macros name h := by
    obtain ⟨rfl, hs⟩ := h
    refine valueUnder?_rel (List.forall₂_same.2 fun e he => ⟨rfl, ?_⟩) name
    obtain ⟨-, hlet⟩ | ⟨hvalue, -⟩ := hs.macros e he
    · exact .inr ⟨hlet, hlet⟩
    · exact .inl ⟨rfl, hvalue⟩
  st_depth h := by rw [h.1]
  st_atDepth d h := by
    obtain ⟨rfl, hs⟩ := h
    exact ⟨rfl, ⟨hs.globals, hs.macros⟩⟩
  st_print _ h := by
    obtain ⟨rfl, hs⟩ := h
    exact ⟨rfl, ⟨hs.globals, hs.macros⟩⟩
  st_newClosure h henv hparts h' := by
    obtain ⟨rfl, hs⟩ := h
    obtain ⟨rfl, hitems⟩ := henv
    obtain ⟨rfl, hvalues⟩ := twins_iff.1 h'
    obtain ⟨params, body, rfl⟩ := List.exists_cons_of_ne_nil hparts
    refine ⟨(), le_rfl, ⟨rfl, Value.everywhere_closure.2 ?_⟩, rfl, ⟨hs.globals, hs.macros⟩⟩
    have hname := Value.wellFormed_text SpecialForm.fnName
    exact ⟨⟨params, body, rfl⟩, List.forall_mem_cons.2 ⟨hname, hvalues⟩, hitems⟩
  st_defineGlobal name h hvalue _ := by
    obtain ⟨rfl, hs⟩ := h
    obtain ⟨rfl, hvalue⟩ := hvalue
    exact ⟨rfl, ⟨List.forall_mem_cons.2 ⟨hvalue, hs.globals⟩, hs.macros⟩⟩
  st_defineMacro name h hvalue htransformer _ := by
    obtain ⟨rfl, hs⟩ := h
    obtain ⟨rfl, hvalue⟩ := hvalue
    exact ⟨rfl, ⟨hs.globals, List.forall_mem_cons.2 ⟨.inr ⟨hvalue, htransformer⟩, hs.macros⟩⟩⟩
  possible_foreseen := .inl
  possible_reporting _ _ h := h
  possible_display h hfail := by
    rw [h.2.display_eq_error hfail]
    exact .inr rfl
  possible_undefined h hname := by
    have hsome := Value.isSome_ofName? ((Value.everywhere_atom rfl).1 h.2)
    rw [hname] at hsome
    cases hsome
  possible_noParameterList h hshort := by
    obtain ⟨⟨params, body, rfl⟩, -⟩ := Value.everywhere_closure.1 h.2
    exact absurd hshort (by simp)

end Simulation

end JsonLisp

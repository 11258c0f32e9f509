import JsonLisp.Proofs.Simulation.Evaluation
import JsonLisp.Proofs.Value.Parts

/-!
# The closures that have been made

A registry says which closures have been made: under each identity one at most, with its form and
its scope. Evaluation adds to the registry what `fn` forms make, under the identity that is next,
and has no values with other closures in them.

## Main definitions

* `Registry`, and its extension by closures made later.
* `Value.Registered`: a value whose closures are all in a registry, and `Value.AllRegistered`.
* `Simulation.registered`: runs with registered values.
-/

namespace JsonLisp

open List (Forall₂)

/-- The closures that have been made, of which at most one has each identity. Those to come have the
identities from `size` on. -/
structure Registry where
  Made : Nat → List Value → Environment → Prop
  size : Nat
  lt_size : ∀ {i form scope}, Made i form scope → i < size
  unique : ∀ {i form form' scope scope'}, Made i form scope → Made i form' scope' →
    form = form' ∧ scope = scope'

namespace Registry

/-- Before any closure is made. -/
def empty : Registry where
  Made _ _ _ := False
  size := 0
  lt_size := False.elim
  unique h _ := h.elim

/-- More closures have been made, with identities of their own. -/
structure Extends (u w : Registry) : Prop where
  size_le : w.size ≤ u.size
  made_iff : ∀ {i form scope}, i < w.size → (u.Made i form scope ↔ w.Made i form scope)

instance : Preorder Registry where
  le w u := u.Extends w
  le_refl _ := ⟨Nat.le_refl _, fun _ => Iff.rfl⟩
  le_trans _ _ _ h g :=
    ⟨Nat.le_trans h.size_le g.size_le, fun hi =>
      (g.made_iff (Nat.lt_of_lt_of_le hi h.size_le)).trans (h.made_iff hi)⟩

/-- One more closure. -/
def add (w : Registry) (form : List Value) (scope : Environment) : Registry where
  Made i other inner := w.Made i other inner ∨ i = w.size ∧ other = form ∧ inner = scope
  size := w.size + 1
  lt_size h := by
    obtain h | ⟨rfl, -⟩ := h
    · exact Nat.lt_succ_of_lt (w.lt_size h)
    · exact Nat.lt_succ_self _
  unique h g := by
    obtain h | ⟨rfl, rfl, rfl⟩ := h <;> obtain g | ⟨hi, rfl, rfl⟩ := g
    · exact w.unique h g
    · exact absurd hi (Nat.ne_of_lt (w.lt_size h))
    · exact absurd (w.lt_size g) (Nat.lt_irrefl _)
    · exact ⟨rfl, rfl⟩

theorem le_add (w : Registry) (form : List Value) (scope : Environment) : w ≤ w.add form scope where
  size_le := Nat.le_succ _
  made_iff hi := ⟨fun h => h.resolve_right fun hnew => absurd hnew.1 (Nat.ne_of_lt hi), .inl⟩

/-- Some of the closures alone, as if the others had not been kept. -/
def restrict (w : Registry) (p : Value → Prop) : Registry where
  Made i form scope := w.Made i form scope ∧ p (.closure i form scope)
  size := w.size
  lt_size h := w.lt_size h.1
  unique h g := w.unique h.1 g.1

/-- A closure is one of those that have been made. -/
def Holds (w : Registry) : Value → Prop
  | .closure i form scope => w.Made i form scope
  | _ => True

variable {w u : Registry} {v : Value}

theorem Holds.mono (hle : w ≤ u) (h : w.Holds v) : u.Holds v := by
  cases v with
  | closure i form scope => exact (hle.made_iff (w.lt_size h)).2 h
  | _ => trivial

theorem holds_restrict {p : Value → Prop} (h : w.Holds v)
    (hp : ∀ i form scope, v = .closure i form scope → p v) : (w.restrict p).Holds v := by
  cases v with
  | closure i form scope => exact ⟨h, hp i form scope rfl⟩
  | _ => trivial

end Registry

namespace Value

/-- All closures, also in code and in captured environments, have been made. -/
def Registered (w : Registry) (v : Value) : Prop := v.Everywhere w.Holds

variable {w u : Registry}

theorem Registered.mono {v : Value} (hle : w ≤ u) (h : v.Registered w) : v.Registered u :=
  fun a ha => (h a ha).mono hle

theorem registered_atom {v : Value} (h : v.isAtom = true) : v.Registered w := by
  refine (everywhere_atom h).2 ?_
  cases v with
  | closure => cases h
  | _ => trivial

/-- It is enough to look at the closures. -/
theorem registered_of_closures {v : Value} (h : ∀ c, c.IsClosure → PartOf c v → w.Holds c) :
    v.Registered w := by
  intro a ha
  cases a with
  | closure i form scope => exact h _ ⟨i, form, scope, rfl⟩ ha
  | _ => trivial

theorem Registered.restrict {v : Value} {p : Value → Prop} (h : v.Registered w)
    (hp : ∀ c, c.IsClosure → PartOf c v → p c) : v.Registered (w.restrict p) :=
  fun a ha => Registry.holds_restrict (h a ha) fun i form scope ha' =>
    hp a ⟨i, form, scope, ha'⟩ ha

@[simp] theorem registered_text (w : Registry) (t : Text) : (text t).Registered w :=
  registered_atom rfl

@[simp] theorem registered_bool (w : Registry) (b : Bool) : (bool b).Registered w :=
  registered_atom rfl

@[simp] theorem registered_list {items : List Value} :
    (list items).Registered w ↔ ∀ v ∈ items, v.Registered w :=
  everywhere_list.trans (and_iff_right trivial)

@[simp] theorem registered_map {entries : List (Text × Value)} :
    (map entries).Registered w ↔ ∀ e ∈ entries, e.2.Registered w :=
  everywhere_map.trans (and_iff_right trivial)

/-- A registered value beside itself. -/
def RegisteredTwin (w : Registry) (a b : Value) : Prop := a.Registered w ∧ a = b

theorem registeredTwins_iff {xs ys : List Value} :
    Forall₂ (RegisteredTwin w) xs ys ↔ (∀ v ∈ xs, v.Registered w) ∧ xs = ys := by
  rw [← List.forall₂_eq_eq_eq, ← List.forall₂_and_left]
  rfl

theorem registeredEntries_iff {es fs : List (Text × Value)} :
    Forall₂ (SameName (RegisteredTwin w)) es fs ↔ (∀ e ∈ es, e.2.Registered w) ∧ es = fs := by
  have hentry (e f : Text × Value) :
      SameName (RegisteredTwin w) e f ↔ e.2.Registered w ∧ e = f := by
    rw [Prod.ext_iff]
    exact and_left_comm
  rw [← List.forall₂_eq_eq_eq, ← List.forall₂_and_left]
  exact ⟨fun h => h.imp fun e f => (hentry e f).1, fun h => h.imp fun e f => (hentry e f).2⟩

/-! ### Several values -/

/-- The values are registered, and so is everything that occurs among them. -/
def AllRegistered (w : Registry) (vs : List Value) : Prop := ∀ v ∈ vs, v.Registered w

variable {vs us : List Value} {i : Nat} {form : List Value} {scope : Environment}

theorem AllRegistered.mono (hle : w ≤ u) (h : AllRegistered w vs) : AllRegistered u vs :=
  fun v hv => (h v hv).mono hle

theorem AllRegistered.append (h : AllRegistered w vs) (h' : AllRegistered w us) :
    AllRegistered w (vs ++ us) := List.forall_mem_append.2 ⟨h, h'⟩

theorem AllRegistered.made (h : AllRegistered w vs) (hc : Occurs (closure i form scope) vs) :
    w.Made i form scope := by
  obtain ⟨v, hv, hpart⟩ := hc
  exact h v hv _ hpart

/-- Values all of whose closures occur among registered ones. -/
theorem AllRegistered.of_occurs (h : AllRegistered w vs)
    (hus : ∀ c, c.IsClosure → Occurs c us → Occurs c vs) : AllRegistered w us := by
  refine fun v hv => registered_of_closures fun c hc hpart => ?_
  obtain ⟨u, hu, hpart⟩ := hus c hc ⟨v, hv, hpart⟩
  exact h u hu c hpart

theorem AllRegistered.restrict {p : Value → Prop} (h : AllRegistered w vs)
    (hp : ∀ c, c.IsClosure → Occurs c vs → p c) : AllRegistered (w.restrict p) vs :=
  fun v hv => (h v hv).restrict fun c hc hpart => hp c hc ⟨v, hv, hpart⟩

end Value

namespace Environment

/-- The same environment, with registered bindings. -/
def RegisteredTwin (w : Registry) (env env' : Environment) : Prop :=
  (∀ b ∈ env.items, b.2.Registered w) ∧ env = env'

end Environment

theorem Value.RegisteredTwin.similar {w : Registry} {a b : Value} (h : a.RegisteredTwin w b) :
    Value.Similar (RegisteredTwin w) (Environment.RegisteredTwin w) a b := by
  obtain ⟨ha, rfl⟩ := h
  cases a with
  | null => exact .null
  | bool b => exact .bool b
  | int n => exact .int n
  | float x => exact .float x
  | text t => exact .text t
  | builtin name => exact .builtin name
  | list items => exact .list (registeredTwins_iff.2 ⟨registered_list.1 ha, rfl⟩)
  | map entries => exact .map (registeredEntries_iff.2 ⟨registered_map.1 ha, rfl⟩)
  | closure i form scope =>
    obtain ⟨-, hform, hscope⟩ := everywhere_closure.1 ha
    exact .closure (registeredTwins_iff.2 ⟨hform, rfl⟩) ⟨hscope, rfl⟩

/-- The closures in the tables have been made, and the next identity is that of none. -/
structure State.Registered (w : Registry) (s : State) : Prop where
  globals : ∀ e ∈ s.globals.entries, e.2.Registered w
  macros : ∀ e ∈ s.macros.entries, e.2.Registered w
  size_eq : w.size = s.nextIdentity

/-- A closure that is made of registered values has the identity that is next. -/
theorem State.Registered.newClosure {w : Registry} {s : State} {form : List Value}
    {scope : Environment} (hs : s.Registered w) (hform : ∀ v ∈ form, v.Registered w)
    (hscope : ∀ b ∈ scope.items, b.2.Registered w) :
    (Value.closure s.nextIdentity form scope).Registered (w.add form scope) ∧
      Registered (w.add form scope) { s with nextIdentity := s.nextIdentity + 1 } := by
  have hle := w.le_add form scope
  refine ⟨Value.everywhere_closure.2 ⟨?_, fun v hv => ?_, fun b hb => ?_⟩, ?_⟩
  · exact .inr ⟨hs.size_eq.symm, rfl, rfl⟩
  · exact (hform v hv).mono hle
  · exact (hscope b hb).mono hle
  · exact
      { globals := fun e he => (hs.globals e he).mono hle
        macros := fun e he => (hs.macros e he).mono hle
        size_eq := congrArg (· + 1) hs.size_eq }

namespace Simulation

/-- Each run of registered values beside itself. -/
def registered : Simulation Registry where
  Val := Value.RegisteredTwin
  Env := Environment.RegisteredTwin
  St w s t := s.Registered w ∧ s = t
  Possible _ := True
  val_mono hle h := ⟨h.1.mono hle, h.2⟩
  env_mono hle h := ⟨fun b hb => (h.1 b hb).mono hle, h.2⟩
  val_similar h := h.similar
  val_identity h h' := by
    cases h.2
    cases h'.2
    rfl
  val_wire h := by rw [h.2]
  val_display h := by rw [h.2]
  val_null _ := ⟨Value.registered_atom rfl, rfl⟩
  val_bool w b := ⟨Value.registered_bool w b, rfl⟩
  val_int _ _ := ⟨Value.registered_atom rfl, rfl⟩
  val_float _ _ _ := ⟨Value.registered_atom rfl, rfl⟩
  val_text w t := ⟨Value.registered_text w t, rfl⟩
  val_list h := by
    obtain ⟨hitems, rfl⟩ := Value.registeredTwins_iff.1 h
    exact ⟨Value.registered_list.2 hitems, rfl⟩
  val_map _ h := by
    obtain ⟨hentries, rfl⟩ := Value.registeredEntries_iff.1 h
    exact ⟨Value.registered_map.2 hentries, rfl⟩
  val_sameKeys _ _ h := by
    obtain ⟨hentries, rfl⟩ := Value.registeredEntries_iff.1 h
    exact ⟨Value.registered_map.2 hentries, rfl⟩
  env_root _ := ⟨fun _ hb => absurd hb List.not_mem_nil, rfl⟩
  env_find name h := by
    rw [Environment.find?_eq_items, Environment.find?_eq_items]
    exact valueUnder?_rel
      (Value.registeredEntries_iff.2 ⟨h.1, congrArg Environment.items h.2⟩) name
  env_extend henv hframe := by
    obtain ⟨hitems, rfl⟩ := henv
    obtain ⟨hbound, rfl⟩ := Value.registeredEntries_iff.1 hframe
    exact ⟨List.forall_mem_append.2 ⟨hbound, hitems⟩, rfl⟩
  st_globals name h := by
    obtain ⟨hs, rfl⟩ := h
    exact valueUnder?_rel (Value.registeredEntries_iff.2 ⟨hs.globals, rfl⟩) name
  st_names h := by rw [h.2]
  st_macros name h := by
    obtain ⟨hs, rfl⟩ := h
    exact rel_imp (fun _ _ => .inl)
      (valueUnder?_rel (Value.registeredEntries_iff.2 ⟨hs.macros, rfl⟩) name)
  st_depth h := by rw [h.2]
  st_atDepth d h := by
    obtain ⟨hs, rfl⟩ := h
    exact ⟨{ hs with }, rfl⟩
  st_print _ h := by
    obtain ⟨hs, rfl⟩ := h
    exact ⟨{ hs with }, rfl⟩
  st_newClosure {w s t env env' parts parts'} h henv _ hparts := by
    obtain ⟨hs, rfl⟩ := h
    obtain ⟨hitems, rfl⟩ := henv
    obtain ⟨hvalues, rfl⟩ := Value.registeredTwins_iff.1 hparts
    let form := Value.text SpecialForm.fnName :: parts
    have hform : ∀ v ∈ form, v.Registered w :=
      List.forall_mem_cons.2 ⟨Value.registered_text _ _, hvalues⟩
    obtain ⟨hmade, hst⟩ := hs.newClosure hform hitems
    exact ⟨w.add form env, w.le_add form env, ⟨hmade, rfl⟩, hst, rfl⟩
  st_defineGlobal name h hvalue _ := by
    obtain ⟨hs, rfl⟩ := h
    obtain ⟨hvalue, rfl⟩ := hvalue
    exact ⟨{ hs with globals := List.forall_mem_cons.2 ⟨hvalue, hs.globals⟩ }, rfl⟩
  st_defineMacro name h hvalue _ _ := by
    obtain ⟨hs, rfl⟩ := h
    obtain ⟨hvalue, rfl⟩ := hvalue
    exact ⟨{ hs with macros := List.forall_mem_cons.2 ⟨hvalue, hs.macros⟩ }, rfl⟩
  possible_foreseen _ := trivial
  possible_reporting _ _ _ := trivial
  possible_display _ _ := trivial
  possible_undefined _ _ := trivial
  possible_noParameterList _ _ := trivial

end Simulation

end JsonLisp

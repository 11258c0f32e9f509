import JsonLisp.Proofs.Simulation.Texts
import Mathlib.Data.Nat.Basic

/-!
# Renumbered closures

The identity of a closure is the number of closures that were made before it, so a run that starts
with more of them behind it gives other identities to those that it makes. Apart from that it is the
same run: a program can tell two closures apart, but not see an identity. With nothing to renumber,
this says that all closures of a state have been made before.

## Main definitions

* `Value.Known`: a value whose closures are among those made so far.
* `Value.renumber`: a value with the identities of its closures mapped.
* `Simulation.renumbered`: runs that differ in the closures made before a given point.
* `State.Known.renumbered`: two states with the same tables are in step.
-/

namespace JsonLisp

open List (Forall₂)

namespace Value

/-! ### Closures made so far -/

def IdentityBelow (n : Nat) : Value → Prop
  | .closure identity _ _ => identity < n
  | _ => True

/-- All closures, also in code and in captured environments, are among the first `n`. -/
def Known (n : Nat) (v : Value) : Prop := v.Everywhere (IdentityBelow n)

theorem Known.mono {n m : Nat} {v : Value} (h : v.Known n) (hnm : n ≤ m) : v.Known m := by
  intro a ha
  have hbelow := h a ha
  cases a with
  | closure => exact Nat.lt_of_lt_of_le hbelow hnm
  | _ => trivial

theorem known_atom {n : Nat} {v : Value} (h : v.isAtom = true) : v.Known n := by
  refine (everywhere_atom h).2 ?_
  cases v with
  | closure => cases h
  | _ => trivial

@[simp] theorem known_text (n : Nat) (t : Text) : (text t).Known n := known_atom rfl

@[simp] theorem known_bool (n : Nat) (b : Bool) : (bool b).Known n := known_atom rfl

@[simp] theorem known_list {n : Nat} {items : List Value} :
    (list items).Known n ↔ ∀ v ∈ items, v.Known n :=
  everywhere_list.trans (and_iff_right trivial)

@[simp] theorem known_map {n : Nat} {entries : List (Text × Value)} :
    (map entries).Known n ↔ ∀ e ∈ entries, e.2.Known n :=
  everywhere_map.trans (and_iff_right trivial)

@[simp] theorem known_closure {n identity : Nat} {form : List Value} {scope : Environment} :
    (closure identity form scope).Known n ↔ identity < n ∧ (∀ v ∈ form, v.Known n) ∧
      ∀ b ∈ scope.items, b.2.Known n :=
  everywhere_closure

/-! ### Renumbering -/

mutual

/-- The identity of every closure mapped. -/
def renumber (ρ : Nat → Nat) : Value → Value
  | .list items => .list (renumberItems ρ items)
  | .map entries => .map (renumberBindings ρ entries)
  | .closure identity form scope =>
    .closure (ρ identity) (renumberItems ρ form) (renumberScope ρ scope)
  | other => other

def renumberItems (ρ : Nat → Nat) : List Value → List Value
  | [] => []
  | v :: rest => renumber ρ v :: renumberItems ρ rest

def renumberBindings (ρ : Nat → Nat) : List (Text × Value) → List (Text × Value)
  | [] => []
  | (name, v) :: rest => (name, renumber ρ v) :: renumberBindings ρ rest

def renumberScope (ρ : Nat → Nat) : List (List (Text × Value)) → List (List (Text × Value))
  | [] => []
  | frame :: rest => renumberBindings ρ frame :: renumberScope ρ rest

end

variable {ρ : Nat → Nat}

theorem renumberItems_eq_map (vs : List Value) : renumberItems ρ vs = vs.map (renumber ρ) := by
  induction vs with
  | nil => rfl
  | cons v rest ih => rw [renumberItems, ih, List.map_cons]

theorem renumberBindings_eq_map (bindings : List (Text × Value)) :
    renumberBindings ρ bindings = bindings.map fun b => (b.1, b.2.renumber ρ) := by
  induction bindings with
  | nil => rfl
  | cons b rest ih => rw [renumberBindings, ih, List.map_cons]

theorem items_renumberScope (scope : Environment) :
    Environment.items (renumberScope ρ scope) = renumberBindings ρ scope.items := by
  induction scope with
  | nil => rfl
  | cons frame rest ih =>
    simp only [Environment.items, renumberBindings_eq_map] at ih ⊢
    rw [renumberScope, List.flatten_cons, List.flatten_cons, List.map_append, ih,
      renumberBindings_eq_map]

theorem renumberItems_eq_self {vs : List Value} (h : ∀ v ∈ vs, v.renumber ρ = v) :
    renumberItems ρ vs = vs := by
  rw [renumberItems_eq_map, List.map_congr_left h, List.map_id']

theorem renumberBindings_eq_self {bindings : List (Text × Value)}
    (h : ∀ b ∈ bindings, b.2.renumber ρ = b.2) : renumberBindings ρ bindings = bindings := by
  rw [renumberBindings_eq_map, List.map_congr_left fun b hb => by rw [h b hb], List.map_id']

theorem renumberScope_eq_self {scope : Environment}
    (h : ∀ b ∈ scope.items, b.2.renumber ρ = b.2) : renumberScope ρ scope = scope := by
  induction scope with
  | nil => rfl
  | cons frame rest ih =>
    obtain ⟨hframe, hrest⟩ := List.forall_mem_append.1 h
    rw [renumberScope, renumberBindings_eq_self hframe, ih hrest]

/-- Nothing changes in a value whose closures keep their identities. -/
theorem Known.renumber_eq_self {n : Nat} (hρ : ∀ i < n, ρ i = i) {v : Value} (h : v.Known n) :
    v.renumber ρ = v := by
  induction v with
  | list items ih =>
    have hitems := known_list.1 h
    rw [renumber, renumberItems_eq_self fun v hv => ih v hv (hitems v hv)]
  | map entries ih =>
    have hentries := known_map.1 h
    rw [renumber, renumberBindings_eq_self fun e he => ih e he (hentries e he)]
  | closure identity form scope hcode hbound =>
    obtain ⟨hidentity, hform, hscope⟩ := known_closure.1 h
    rw [renumber, hρ identity hidentity, renumberItems_eq_self fun v hv => hcode v hv (hform v hv),
      renumberScope_eq_self fun b hb => hbound b hb (hscope b hb)]
  | null | bool | int | float | text | builtin => rfl

/-! ### Related values -/

/-- The second value is the first one renumbered, whose closures are among the first `n`. -/
def RenumbersTo (ρ : Nat → Nat) (n : Nat) (a b : Value) : Prop := a.Known n ∧ a.renumber ρ = b

theorem RenumbersTo.mono {n m : Nat} {a b : Value} (h : RenumbersTo ρ n a b) (hnm : n ≤ m) :
    RenumbersTo ρ m a b :=
  ⟨h.1.mono hnm, h.2⟩

theorem Known.renumbersTo_self {n : Nat} (hρ : ∀ i < n, ρ i = i) {v : Value} (h : v.Known n) :
    RenumbersTo ρ n v v :=
  ⟨h, h.renumber_eq_self hρ⟩

theorem renumbersTo_atom {n : Nat} {v : Value} (h : v.isAtom = true) : RenumbersTo ρ n v v := by
  refine ⟨known_atom h, ?_⟩
  cases v with
  | list | map | closure => cases h
  | null | bool | int | float | text | builtin => rfl

theorem renumbersTo_items {n : Nat} {xs ys : List Value} :
    Forall₂ (RenumbersTo ρ n) xs ys ↔ (∀ v ∈ xs, v.Known n) ∧ renumberItems ρ xs = ys := by
  rw [renumberItems_eq_map, ← List.forall₂_eq_eq_eq, List.forall₂_map_left_iff,
    ← List.forall₂_and_left]
  rfl

theorem renumbersTo_entries {n : Nat} {es fs : List (Text × Value)} :
    Forall₂ (SameName (RenumbersTo ρ n)) es fs ↔
      (∀ e ∈ es, e.2.Known n) ∧ renumberBindings ρ es = fs := by
  rw [renumberBindings_eq_map, ← List.forall₂_eq_eq_eq, List.forall₂_map_left_iff,
    ← List.forall₂_and_left]
  have hentry (e f : Text × Value) :
      SameName (RenumbersTo ρ n) e f ↔ e.2.Known n ∧ (e.1, e.2.renumber ρ) = f := by
    rw [Prod.ext_iff]
    exact and_left_comm
  exact ⟨fun h => h.imp fun e f => (hentry e f).1, fun h => h.imp fun e f => (hentry e f).2⟩

theorem renumbersTo_list {n : Nat} {xs ys : List Value} (h : Forall₂ (RenumbersTo ρ n) xs ys) :
    RenumbersTo ρ n (.list xs) (.list ys) := by
  obtain ⟨hknown, rfl⟩ := renumbersTo_items.1 h
  exact ⟨known_list.2 hknown, rfl⟩

theorem renumbersTo_map {n : Nat} {es fs : List (Text × Value)}
    (h : Forall₂ (SameName (RenumbersTo ρ n)) es fs) : RenumbersTo ρ n (.map es) (.map fs) := by
  obtain ⟨hknown, rfl⟩ := renumbersTo_entries.1 h
  exact ⟨known_map.2 hknown, rfl⟩

end Value

namespace Environment

/-- The second scope is the first one renumbered. -/
structure RenumbersTo (ρ : Nat → Nat) (n : Nat) (scope scope' : Environment) : Prop where
  known : ∀ b ∈ scope.items, b.2.Known n
  eq : Value.renumberScope ρ scope = scope'

variable {ρ : Nat → Nat} {n : Nat} {scope scope' : Environment}

theorem RenumbersTo.items (h : RenumbersTo ρ n scope scope') :
    Forall₂ (SameName (Value.RenumbersTo ρ n)) scope.items scope'.items := by
  refine Value.renumbersTo_entries.2 ⟨h.known, ?_⟩
  rw [← h.eq, Value.items_renumberScope]

theorem RenumbersTo.mono {m : Nat} (h : RenumbersTo ρ n scope scope') (hnm : n ≤ m) :
    RenumbersTo ρ m scope scope' :=
  ⟨fun b hb => (h.known b hb).mono hnm, h.eq⟩

theorem renumbersTo_self (hρ : ∀ i < n, ρ i = i) (h : ∀ b ∈ scope.items, b.2.Known n) :
    RenumbersTo ρ n scope scope :=
  ⟨h, Value.renumberScope_eq_self fun b hb => (h b hb).renumber_eq_self hρ⟩

theorem RenumbersTo.extend (h : RenumbersTo ρ n scope scope') {frame frame' : Frame}
    (hframe : Forall₂ (SameName (Value.RenumbersTo ρ n)) frame frame') :
    RenumbersTo ρ n (scope.extend frame) (scope'.extend frame') := by
  obtain ⟨hknown, rfl⟩ := Value.renumbersTo_entries.1 hframe
  refine ⟨List.forall_mem_append.2 ⟨hknown, h.known⟩, ?_⟩
  rw [Environment.extend, Environment.extend, Value.renumberScope, h.eq]

end Environment

theorem Value.renumbersTo_closure {ρ : Nat → Nat} {n i : Nat} {form form' : List Value}
    {scope scope' : Environment} (hi : i < n) (hform : Forall₂ (RenumbersTo ρ n) form form')
    (hscope : scope.RenumbersTo ρ n scope') :
    RenumbersTo ρ n (.closure i form scope) (.closure (ρ i) form' scope') := by
  obtain ⟨hknown, rfl⟩ := renumbersTo_items.1 hform
  obtain ⟨hbound, rfl⟩ := hscope
  exact ⟨known_closure.2 ⟨hi, hknown, hbound⟩, rfl⟩

theorem Value.RenumbersTo.similar {ρ : Nat → Nat} {n : Nat} {a b : Value}
    (h : RenumbersTo ρ n a b) :
    Similar (RenumbersTo ρ n) (Environment.RenumbersTo ρ n) a b := by
  obtain ⟨ha, rfl⟩ := h
  cases a with
  | null => exact .null
  | bool p => exact .bool p
  | int m => exact .int m
  | float x => exact .float x
  | text t => exact .text t
  | builtin name => exact .builtin name
  | list items => exact .list (renumbersTo_items.2 ⟨known_list.1 ha, rfl⟩)
  | map entries => exact .map (renumbersTo_entries.2 ⟨known_map.1 ha, rfl⟩)
  | closure i form scope =>
    obtain ⟨-, hform, hscope⟩ := known_closure.1 ha
    exact .closure (renumbersTo_items.2 ⟨hform, rfl⟩) ⟨hscope, rfl⟩

/-! ### States -/

/-- The identities from `c` on raised by `δ`. -/
def shift (c δ i : Nat) : Nat := if i < c then i else i + δ

theorem shift_of_lt {c i : Nat} (δ : Nat) (h : i < c) : shift c δ i = i := if_pos h

theorem shift_inj {c δ i j : Nat} : shift c δ i = shift c δ j ↔ i = j := by
  unfold shift
  split <;> split <;> omega

/-- Both states know the same, and the second one has made `δ` closures more. None of them is before
the closure `c` of the first. -/
structure State.Renumbered (c δ n : Nat) (s t : State) : Prop where
  globals : Forall₂ (SameName (Value.RenumbersTo (shift c δ) n)) s.globals.entries
    t.globals.entries
  macros : Forall₂ (SameName (Value.RenumbersTo (shift c δ) n)) s.macros.entries t.macros.entries
  printed : s.printed = t.printed
  depth : s.depth = t.depth
  nextIdentity : s.nextIdentity = n
  nextIdentity_add : t.nextIdentity = n + δ
  start_le : c ≤ n

namespace State

/-- All closures in the tables have been made before. -/
structure Known (s : State) : Prop where
  globals : ∀ e ∈ s.globals.entries, e.2.Known s.nextIdentity
  macros : ∀ e ∈ s.macros.entries, e.2.Known s.nextIdentity

variable {c δ n : Nat} {s t : State}

/-- With the same tables, a state that has made more closures differs in those to come alone. -/
theorem Known.renumbered (hs : s.Known) (hglobals : t.globals = s.globals)
    (hmacros : t.macros = s.macros) (hprinted : t.printed = s.printed) (hdepth : t.depth = s.depth)
    (hnext : t.nextIdentity = s.nextIdentity + δ) :
    Renumbered s.nextIdentity δ s.nextIdentity s t := by
  have htwins {es : List (Text × Value)} (hes : ∀ e ∈ es, e.2.Known s.nextIdentity) :
      Forall₂ (SameName (Value.RenumbersTo (shift s.nextIdentity δ) s.nextIdentity)) es es :=
    List.forall₂_same.2 fun e he => ⟨rfl, (hes e he).renumbersTo_self fun _ => shift_of_lt δ⟩
  exact
    { globals := by rw [hglobals]; exact htwins hs.globals
      macros := by rw [hmacros]; exact htwins hs.macros
      printed := hprinted.symm
      depth := hdepth.symm
      nextIdentity := rfl
      nextIdentity_add := hnext
      start_le := le_rfl }

theorem Known.renumbered_self (hs : s.Known) : Renumbered s.nextIdentity 0 s.nextIdentity s s :=
  hs.renumbered rfl rfl rfl rfl rfl

theorem Renumbered.known (h : Renumbered c δ n s t) : s.Known where
  globals := by
    rw [h.nextIdentity]
    exact (Value.renumbersTo_entries.1 h.globals).1
  macros := by
    rw [h.nextIdentity]
    exact (Value.renumbersTo_entries.1 h.macros).1

end State

namespace Simulation

/-- Runs in which all closures from `c` on are numbered with `δ` more. A world is the number of
closures that the first run has made. -/
def renumbered (c δ : Nat) : Simulation Nat where
  Val := Value.RenumbersTo (shift c δ)
  Env := Environment.RenumbersTo (shift c δ)
  St := State.Renumbered c δ
  Possible _ := True
  val_mono h hab := hab.mono h
  env_mono h henv := henv.mono h
  val_similar h := h.similar
  val_identity h h' := by
    cases h.2
    cases h'.2
    exact shift_inj.symm
  val_wire := Value.wire_eq_of_similar Value.RenumbersTo.similar Environment.RenumbersTo.items
  val_display := Value.display_eq_of_similar Value.RenumbersTo.similar
  val_null _ := Value.renumbersTo_atom rfl
  val_bool _ _ := Value.renumbersTo_atom rfl
  val_int _ _ := Value.renumbersTo_atom rfl
  val_float _ _ _ := Value.renumbersTo_atom rfl
  val_text _ _ := Value.renumbersTo_atom rfl
  val_list := Value.renumbersTo_list
  val_map _ := Value.renumbersTo_map
  val_sameKeys _ _ := Value.renumbersTo_map
  env_root _ := ⟨fun _ hb => absurd hb List.not_mem_nil, rfl⟩
  env_find name h := by
    rw [Environment.find?_eq_items, Environment.find?_eq_items]
    exact valueUnder?_rel h.items name
  env_extend h hframe := h.extend hframe
  st_globals name h := valueUnder?_rel h.globals name
  st_names h := keys_eq h.globals
  st_macros name h := rel_imp (fun _ _ => .inl) (valueUnder?_rel h.macros name)
  st_depth h := h.depth
  st_atDepth d h := { h with depth := rfl }
  st_print _ h := { h with printed := by rw [h.printed] }
  st_newClosure {n s t env env' parts parts'} h henv _ hparts := by
    have hmono {a b : Value} (hab : a.RenumbersTo (shift c δ) n b) :
        a.RenumbersTo (shift c δ) (n + 1) b := hab.mono n.le_succ
    -- The new closure is not one of the first `c`, which alone keep their numbers.
    have hnext : t.nextIdentity = shift c δ s.nextIdentity := by
      have hle := h.start_le
      rw [h.nextIdentity, h.nextIdentity_add, shift, if_neg (by omega)]
    refine ⟨n + 1, n.le_succ, ?_, ?_⟩
    · rw [hnext]
      have hnew : s.nextIdentity < n + 1 := by
        rw [h.nextIdentity]
        exact n.lt_succ_self
      have hform := hparts.imp fun _ _ => hmono
      exact Value.renumbersTo_closure hnew (.cons (Value.renumbersTo_atom rfl) hform)
        (henv.mono n.le_succ)
    · exact
        { h with
          globals := h.globals.imp fun _ _ hef => ⟨hef.1, hmono hef.2⟩
          macros := h.macros.imp fun _ _ hef => ⟨hef.1, hmono hef.2⟩
          nextIdentity := by rw [h.nextIdentity]
          nextIdentity_add := by simp only [h.nextIdentity_add, Nat.add_right_comm]
          start_le := Nat.le_succ_of_le h.start_le }
  st_defineGlobal name h hvalue _ := { h with globals := .cons ⟨rfl, hvalue⟩ h.globals }
  st_defineMacro name h hvalue _ _ := { h with macros := .cons ⟨rfl, hvalue⟩ h.macros }
  possible_foreseen _ := trivial
  possible_reporting _ _ _ := trivial
  possible_display _ _ := trivial
  possible_undefined _ _ := trivial
  possible_noParameterList _ _ := trivial

/-- A run beside itself: it makes closures, and those that it leaves in the tables are among them or
older. -/
theorem known_of_runs {α : Type} {R : Nat → α → α → Prop} {m : Run α} {s : State}
    (hm : (renumbered s.nextIdentity 0).Runs s.nextIdentity R m m) (hs : s.Known) :
    (Outcome.state (m s)).Known ∧ s.nextIdentity ≤ (Outcome.state (m s)).nextIdentity := by
  obtain ⟨n, hle, hst⟩ := (hm hs.renumbered_self).states
  exact ⟨hst.known, Nat.le_trans hle (Nat.le_of_eq hst.nextIdentity.symm)⟩

end Simulation

end JsonLisp

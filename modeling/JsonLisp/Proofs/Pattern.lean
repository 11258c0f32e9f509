import JsonLisp.Environment
import JsonLisp.Pattern
import JsonLisp.Proofs.Except
import JsonLisp.Proofs.Value.Parts

/-!
# Matching of patterns

Binding succeeds for the arguments that match the pattern and for no others. The bindings then hold
every part of the arguments that a name takes, once and in the order of the names, so that the
arguments can be read off from them.

## Main definitions

* `Pattern.Matches`: the lists of arguments that a pattern takes.
* `Pattern.names`: the names of a pattern in order.
* `Pattern.refill`: the arguments with the values of the names put back in their places.
* `bind_matching`: what is bound, and what the names then mean.
-/

namespace JsonLisp.Pattern

/-- A name takes any argument, a nested pattern a list that it matches, and the name behind the rest
marker all arguments that are left. -/
inductive Matches : List Value → List Value → Prop
  | nil : Matches [] []
  | rest (name : Text) (args : List Value) : Matches [.text restMarker, .text name] args
  | name {name : Text} {params args : List Value} (arg : Value) : name ≠ restMarker →
      Matches params args → Matches (.text name :: params) (arg :: args)
  | nested {pattern items params args : List Value} : Matches pattern items →
      Matches params args → Matches (.list pattern :: params) (.list items :: args)

mutual

/-- The names of a pattern from left to right, those of a nested pattern in its place. -/
def names : List Value → List Text
  | [] => []
  | param :: params =>
    if isRestMarker param then params.filterMap Value.text? else namesOf param ++ names params

def namesOf : Value → List Text
  | .text name => [name]
  | .list pattern => names pattern
  | _ => []

end

/-- The value of the name behind the rest marker is spliced in. -/
def refillRest : List Value → List Value × List Value
  | .list rest :: left => (rest, left)
  | values => ([], values)

mutual

/-- The arguments of a pattern, made of the values of its names, and the values that are left
over. -/
def refill : List Value → List Value → List Value × List Value
  | [], values => ([], values)
  | param :: params, values =>
    if isRestMarker param then refillRest values
    else
      let (arg, left) := refillOne param values
      let (args, left) := refill params left
      (arg :: args, left)

def refillOne : Value → List Value → Value × List Value
  | .text _, value :: left => (value, left)
  | .list pattern, values =>
    let (items, left) := refill pattern values
    (.list items, left)
  | other, values => (other, values)

end

/-! ### Steps -/

theorem isRestMarker_text {name : Text} : isRestMarker (.text name) = true ↔ name = restMarker := by
  simp [isRestMarker]

theorem bind_cons (param : Value) (params args : List Value) :
    bind (param :: params) args =
      if isRestMarker param then bindRest params args
      else match args with
        | arg :: rest =>
          bindOne param arg >>= fun frame =>
            bind params rest >>= fun later => pure (frame ++ later)
        | [] =>
          match param with
          | .text _ => missing (param :: params)
          | other => bindOne other .null := by
  rewrite [bind.eq_def]
  cases args <;> rfl

section Step

variable {param arg : Value} {params args : List Value} {frame later : Frame}
  (hparam : isRestMarker param = false)
include hparam

theorem bind_cons_of_ok (hone : bindOne param arg = .ok frame)
    (hlater : bind params args = .ok later) :
    bind (param :: params) (arg :: args) = .ok (frame ++ later) := by
  rw [bind_cons, if_neg (by simp [hparam])]
  dsimp only
  rw [hone, hlater]
  rfl

theorem names_cons : names (param :: params) = namesOf param ++ names params := by
  rw [names, if_neg (by simp [hparam])]

theorem refill_cons {values left more : List Value} (hone : refillOne param values = (arg, left))
    (hlater : refill params left = (args, more)) :
    refill (param :: params) values = (arg :: args, more) := by
  rw [refill, if_neg (by simp [hparam]), hone]
  dsimp only
  rw [hlater]

end Step

/-! ### Bindings of arguments that match -/

/-- The frame binds the names of the pattern, in order, to the values that make up the arguments. -/
structure Fits (params args : List Value) (frame : Frame) : Prop where
  names_eq : frame.map Prod.fst = names params
  refill_eq : ∀ more, refill params (frame.map Prod.snd ++ more) = (args, more)

theorem Matches.exists_bind {params args : List Value} (h : Matches params args) :
    ∃ frame, bind params args = .ok frame ∧ Fits params args frame := by
  induction h with
  | nil => exact ⟨[], rfl, rfl, fun _ => rfl⟩
  | rest name args =>
    have hmarker : isRestMarker (.text restMarker) = true := isRestMarker_text.2 rfl
    refine ⟨[(name, .list args)], ?_, ?_, fun more => ?_⟩
    · rw [bind_cons, if_pos hmarker]
      rfl
    · rw [names, if_pos hmarker]
      rfl
    · rw [refill, if_pos hmarker]
      rfl
  | @name name params args arg hname _ ih =>
    obtain ⟨later, hlater, hnames, hrefill⟩ := ih
    have hparam : isRestMarker (.text name) = false := by
      rwa [← Bool.not_eq_true, isRestMarker_text]
    refine ⟨[(name, arg)] ++ later, bind_cons_of_ok hparam rfl hlater, ?_, fun more => ?_⟩
    · rw [names_cons hparam, List.map_append, hnames]
      rfl
    · exact refill_cons hparam rfl (hrefill more)
  | @nested pattern items params args _ _ ihitems ih =>
    obtain ⟨frame, hframe, hnames, hrefill⟩ := ihitems
    obtain ⟨later, hlater, hlaterNames, hlaterRefill⟩ := ih
    refine ⟨frame ++ later, bind_cons_of_ok rfl hframe hlater, ?_, fun more => ?_⟩
    · rw [names_cons rfl, List.map_append, hnames, hlaterNames]
      rfl
    · have hone : refillOne (.list pattern) ((frame ++ later).map Prod.snd ++ more) =
          (.list items, later.map Prod.snd ++ more) := by
        rw [refillOne, List.map_append, List.append_assoc, hrefill]
      exact refill_cons rfl hone (hlaterRefill more)

/-! ### Arguments that are bound -/

theorem eq_of_bindRest {params args : List Value} {frame : Frame}
    (h : bindRest params args = .ok frame) : ∃ name, params = [.text name] := by
  unfold bindRest at h
  split at h
  · cases h
  · exact ⟨_, rfl⟩
  · obtain ⟨_, -, h⟩ := exists_of_bind_eq_ok h
    cases h
  · cases h

/-- Only names and nested patterns are bound, these to lists. -/
theorem bindOne_eq_ok {param arg : Value} {frame : Frame} (h : bindOne param arg = .ok frame) :
    (∃ name, param = .text name) ∨
      ∃ pattern items, param = .list pattern ∧ arg = .list items ∧
        bind pattern items = .ok frame := by
  cases param with
  | text name => exact .inl ⟨name, rfl⟩
  | list pattern =>
    cases arg with
    | list items => exact .inr ⟨pattern, items, rfl, rfl, h⟩
    | null | bool | int | float | text | map | closure | builtin =>
      obtain ⟨_, -, h⟩ := exists_of_bind_eq_ok h
      obtain ⟨_, -, h⟩ := exists_of_bind_eq_ok h
      cases h
  | null | bool | int | float | map | closure | builtin =>
    obtain ⟨_, -, h⟩ := exists_of_bind_eq_ok h
    cases h

/-- A parameter takes an argument, since a pattern does not take `null`. -/
theorem args_ne_nil_of_bind {param : Value} {params args : List Value} {frame : Frame}
    (hparam : isRestMarker param = false) (h : bind (param :: params) args = .ok frame) :
    args ≠ [] := by
  rintro rfl
  rw [bind_cons, if_neg (by simp [hparam])] at h
  cases param with
  | text name =>
    obtain ⟨_, -, h⟩ := exists_of_bind_eq_ok h
    cases h
  | null | bool | int | float | list | map | closure | builtin =>
    obtain ⟨_, hname⟩ | ⟨_, _, -, hnull, -⟩ := bindOne_eq_ok h
    · cases hname
    · cases hnull

/-- Where the parameter is bound, it is one more part of a pattern that matches. -/
def Extends (param : Value) : Prop :=
  ∀ {arg : Value} {frame : Frame}, isRestMarker param = false → bindOne param arg = .ok frame →
    ∀ {params args : List Value}, Matches params args → Matches (param :: params) (arg :: args)

theorem matches_of_bindList {params args : List Value} {frame : Frame}
    (hone : ∀ p ∈ params, Extends p) (h : bind params args = .ok frame) : Matches params args := by
  induction params generalizing args frame with
  | nil =>
    cases args with
    | nil => exact .nil
    | cons arg args =>
      obtain ⟨_, -, h⟩ := exists_of_bind_eq_ok h
      cases h
  | cons param params ih =>
    cases hparam : isRestMarker param with
    | true =>
      rw [bind_cons, if_pos hparam] at h
      obtain ⟨name, rfl⟩ := eq_of_bindRest h
      cases param with
      | text t =>
        rw [isRestMarker_text.1 hparam]
        exact .rest name args
      | null | bool | int | float | list | map | closure | builtin => cases hparam
    | false =>
      obtain ⟨arg, args, rfl⟩ := List.exists_cons_of_ne_nil (args_ne_nil_of_bind hparam h)
      rw [bind_cons, if_neg (by simp [hparam])] at h
      obtain ⟨first, hfirst, h⟩ := exists_of_bind_eq_ok h
      obtain ⟨later, hlater, -⟩ := exists_of_bind_eq_ok h
      have hrest := ih (fun p hp => hone p (List.mem_cons_of_mem param hp)) hlater
      exact hone param List.mem_cons_self hparam hfirst hrest

theorem extends_of (param : Value) : Extends param := by
  induction param with
  | text name =>
    intro arg _ hparam _ _ _ hmatches
    refine .name arg (fun hname => ?_) hmatches
    rw [isRestMarker_text.2 hname] at hparam
    cases hparam
  | list pattern ih =>
    intro arg frame _ h _ _ hmatches
    obtain ⟨_, hname⟩ | ⟨_, items, hpattern, rfl, hitems⟩ := bindOne_eq_ok h
    · cases hname
    · cases hpattern
      exact .nested (matches_of_bindList ih hitems) hmatches
  | null | bool | int | float | map | closure | builtin =>
    intro _ _ _ h
    obtain ⟨_, hname⟩ | ⟨_, _, hlist, -, -⟩ := bindOne_eq_ok h
    · cases hname
    · cases hlist

theorem matches_of_bind {params args : List Value} {frame : Frame}
    (h : bind params args = .ok frame) : Matches params args :=
  matches_of_bindList (fun p _ => extends_of p) h

theorem fits_of_bind {params args : List Value} {frame : Frame}
    (h : bind params args = .ok frame) : Fits params args frame := by
  obtain ⟨other, hother, hfits⟩ := (matches_of_bind h).exists_bind
  rw [h] at hother
  cases hother
  exact hfits

/-! ### Look-up -/

/-- The first binding of a name counts. -/
theorem find?_frame (name : Text) (frame : Frame) :
    Frame.find? name frame =
      ((frame.map Prod.fst).idxOf? name).bind fun i => (frame.map Prod.snd)[i]? := by
  induction frame with
  | nil => rfl
  | cons b rest ih =>
    unfold Frame.find? valueUnder? at ih ⊢
    rw [List.map_cons, List.map_cons, List.find?_cons, List.idxOf?_cons]
    cases hname : b.1 == name with
    | true => rfl
    | false =>
      dsimp only
      rw [ih]
      cases List.idxOf? name (rest.map Prod.fst) <;> rfl

theorem find?_extend (name : Text) (frame : Frame) (env : Environment) :
    (env.extend frame).find? name =
      match (frame.map Prod.fst).idxOf? name with
      | some i => (frame.map Prod.snd)[i]?
      | none => env.find? name := by
  rw [Environment.extend, Environment.find?, find?_frame]
  cases hname : List.idxOf? name (frame.map Prod.fst) with
  | none => rfl
  | some i =>
    have hi : i < frame.length := by
      have hlt := (List.findIdx?_eq_some_iff_findIdx_eq.1 hname).1
      simpa using hlt
    simp [hi]

/-- Binding succeeds exactly for the arguments that match the pattern. The names that it binds are
those of the pattern in order, their values put back in their places are the arguments and nothing
else, and in a scope that is extended by them a name means the value of its first occurrence, or
what it meant outside if there is none. -/
theorem bind_matching (params args : List Value) :
    ((∃ frame, bind params args = .ok frame) ↔ Matches params args) ∧
    ∀ frame, bind params args = .ok frame →
      frame.map Prod.fst = names params ∧
      refill params (frame.map Prod.snd) = (args, []) ∧
      ∀ (env : Environment) (name : Text), (env.extend frame).find? name =
        match (names params).idxOf? name with
        | some i => (frame.map Prod.snd)[i]?
        | none => env.find? name := by
  refine ⟨⟨fun ⟨_, h⟩ => matches_of_bind h, fun h => ?_⟩, fun frame h => ?_⟩
  · obtain ⟨frame, hframe, -⟩ := h.exists_bind
    exact ⟨frame, hframe⟩
  · obtain ⟨hnames, hrefill⟩ := fits_of_bind h
    have hall := hrefill []
    rw [List.append_nil] at hall
    refine ⟨hnames, hall, fun env name => ?_⟩
    rw [find?_extend, hnames]

/-- The pattern `[["a", "&", "r"], "b", "a"]` with `[[1, 2, 3], 4, 5]`. -/
theorem bind_matching_repeatedName :
    let params : List Value := [.list [.text [97], .text [38], .text [114]], .text [98], .text [97]]
    let args : List Value := [.list [.int 1, .int 2, .int 3], .int 4, .int 5]
    let frame : Frame :=
      [([97], .int 1), ([114], .list [.int 2, .int 3]), ([98], .int 4), ([97], .int 5)]
    bind params args = .ok frame ∧ Matches params args ∧
      names params = [[97], [114], [98], [97]] ∧
      refill params (frame.map Prod.snd) = (args, []) ∧
      Environment.find? [97] (Environment.root.extend frame) = some (.int 1) ∧
      Environment.find? [99] (Environment.root.extend frame) = none := by
  intro params args frame
  have hbind : bind params args = .ok frame := rfl
  obtain ⟨hiff, hframe⟩ := bind_matching params args
  obtain ⟨hnames, hrefill, hfind⟩ := hframe frame hbind
  exact ⟨hbind, hiff.1 ⟨frame, hbind⟩, hnames.symm, hrefill, hfind .root [97], hfind .root [99]⟩

end JsonLisp.Pattern

import JsonLisp.Proofs.Evaluation.Levels
import JsonLisp.Proofs.Session.Tables

/-!
# The bootstrap programs

A session defines `defun` and `not` in its own language before the first request. They keep their
meaning in every later state, unless a macro takes the place of a function that they call.

## Main definitions

* `Session.DefunIntact`: what the meaning of `defun` rests on.
* `Session.DefunKept`, `Session.NotKept`: what the two do in a state.

## Main statements

* `Session.DefunIntact.takes_expandCall`: a call of `defun` is expanded with five levels.
* `Session.bootstrap_fresh`: what the bootstrap programs leave.
* `bootstrap_kept`: the meaning of the two in the states of a session, and the starts that succeed.
-/

namespace JsonLisp

open Text (ofString)
open Value (word)

/-- What `not` makes of a value. -/
def Value.negation : Value → Value
  | .null => .bool true
  | .bool false => .bool true
  | _ => .bool false

namespace Session

/-! ### The template of `defun` -/

def defunParams : List Value := [word "name", word "params", word "&", word "body"]

def defunTemplate : Value :=
  template "do"
    [template "def"
      [word "name", .list [word "append", template "fn" [word "params"], word "body"]],
      template "" [word "name"]]

/-- `["defun", f, params, body...]`. -/
def defunForm (f params : Value) (body : List Value) : Value :=
  .list (word "defun" :: f :: params :: body)

/-- `["do", ["def", f, ["fn", params, body...]], ["", f]]`. -/
def defunExpansion (f params : Value) (body : List Value) : Value :=
  .list [word "do", .list [word "def", f, .list (word "fn" :: params :: body)],
    .list [word "", f]]

/-- The transformer of `defun` is that of the bootstrap program, and the functions that its template
calls are the primitives. -/
structure DefunIntact (s : State) : Prop where
  transformer : ∃ i, s.macros.find? (ofString "defun") =
    some (.closure i [word "fn", .list defunParams, defunTemplate] Environment.root)
  list : s.globals.find? (ofString "list") = some (.builtin (ofString "list"))
  append : s.globals.find? (ofString "append") = some (.builtin (ofString "append"))
  noListMacro : s.macros.contains (ofString "list") = false
  noAppendMacro : s.macros.contains (ofString "append") = false

namespace DefunIntact

variable {limits : Limits} {s : State} {env : Environment} {n k : Nat}

/-- A template makes the list of its head and the values of its parts. -/
theorem takes_template (h : DefunIntact s) (hlocal : env.find? (ofString "list") = none)
    {args values : List Value}
    (hargs : TakesLevels limits s n (evalArguments (evaluate limits) env args) values)
    (head : String) :
    TakesLevels limits s (max 1 n + 1) (evaluate limits (template head args) env)
      (.list (word head :: values)) :=
  .call rfl h.noListMacro hlocal h.list rfl rfl ((TakesLevels.quote (word head)).argument hargs)

theorem takes_append (h : DefunIntact s) (hlocal : env.find? (ofString "append") = none)
    {e e' : Value} {xs ys : List Value}
    (he : TakesLevels limits s n (evaluate limits e env) (.list xs))
    (he' : TakesLevels limits s k (evaluate limits e' env) (.list ys)) :
    TakesLevels limits s (max n (max k 0) + 1)
      (evaluate limits (.list [word "append", e, e']) env) (.list (xs ++ ys)) := by
  have hrun : Primitive.append.run [.list xs, .list ys] = pure (.list (xs ++ ys)) := by
    change Run.ofExcept (.ok (Value.list [xs, ys].flatten)) = _
    simp [Run.ofExcept]
  exact .call rfl h.noAppendMacro hlocal h.append rfl hrun (he.argument (he'.argument .noArguments))

/-- The template of `defun` takes five levels: those of its quotations and of four calls around
them. -/
theorem takes_defunTemplate (h : DefunIntact s) (f params : Value) (body : List Value) :
    TakesLevels limits s 5
      (evaluate limits defunTemplate (Environment.root.extend
        [(ofString "name", f), (ofString "params", params), (ofString "body", .list body)]))
      (defunExpansion f params body) := by
  have hname {x : Text} {v : Value} := @TakesLevels.name limits s (Environment.root.extend
    [(ofString "name", f), (ofString "params", params), (ofString "body", .list body)]) v x
  have hfn := h.takes_template rfl ((hname (x := ofString "params") rfl).argument .noArguments) "fn"
  have happend := h.takes_append rfl hfn (hname (x := ofString "body") rfl)
  have hdef := h.takes_template rfl ((hname (x := ofString "name") rfl).argument
    (happend.argument .noArguments)) "def"
  have hquote := h.takes_template rfl ((hname (x := ofString "name") rfl).argument .noArguments) ""
  exact h.takes_template rfl (hdef.argument (hquote.argument .noArguments)) "do"

/-! ### Calls of `defun` -/

theorem takes_expandOnce (h : DefunIntact s) (f params : Value) (body : List Value) :
    TakesLevels limits s 5 (expandOnce (engine limits) (ofString "defun") (f :: params :: body))
      (defunExpansion f params body) := by
  obtain ⟨i, htransformer⟩ := h.transformer
  intro d
  refine (expandOnce_of_find? (s := s.atDepth d) htransformer _).trans ?_
  exact h.takes_defunTemplate f params body d

/-- The expansion is complete after one step. -/
theorem takes_expandCall (h : DefunIntact s) (limit : Int) (f params : Value)
    (body : List Value) :
    TakesLevels limits s 5
      (expandCall (engine limits) limit (ofString "defun") (f :: params :: body))
      (defunExpansion f params body) := by
  have hdone : TakesLevels limits s 0
      (expandFurther (engine limits) (max limit 1) (limit - 1).toNat (defunExpansion f params body))
      (defunExpansion f params body) := fun _ => expandFurther_other rfl _ _ _
  exact (h.takes_expandOnce f params body).bind hdone

theorem contains_defun (h : DefunIntact s) : s.macros.contains (ofString "defun") = true := by
  obtain ⟨i, htransformer⟩ := h.transformer
  exact Table.contains_iff_find?.2 ⟨_, htransformer⟩

theorem atDepth (h : DefunIntact s) (d : Nat) : DefunIntact (s.atDepth d) where
  transformer := h.transformer
  list := h.list
  append := h.append
  noListMacro := h.noListMacro
  noAppendMacro := h.noAppendMacro

/-- With six levels left the expansion is evaluated in the place of the form. -/
theorem evaluate_defunForm (h : DefunIntact s) (hroom : s.depth + 6 ≤ limits.evaluation)
    (f params : Value) (body : List Value) (env : Environment) :
    evaluate limits (defunForm f params body) env s =
      Run.nested (evaluate limits (defunExpansion f params body) env) s := by
  refine (evaluate_macroCall rfl h.contains_defun (by omega) _ env).trans (nested_congr ?_)
  exact bind_of_ok ((h.takes_expandCall limits.expansion f params body).ok (by omega))

theorem evaluate_defunForm_full (h : DefunIntact s) (hfull : limits.evaluation < s.depth + 6)
    (f params : Value) (body : List Value) (env : Environment) :
    evaluate limits (defunForm f params body) env s =
      .error (.nestedTooDeep limits.evaluation) s := by
  by_cases hnone : limits.evaluation ≤ s.depth
  · exact evaluate_full hnone _ _ env
  · refine (evaluate_macroCall rfl h.contains_defun (by omega) _ env).trans (nested_of_error ?_)
    exact bind_of_error ((h.takes_expandCall limits.expansion f params body).refused (by omega))

end DefunIntact

/-- The expansion for a free name defines the function and returns the name. -/
theorem evaluate_defunExpansion {limits : Limits} {s : State} {name : Text}
    (hfree : s.globals.contains name = false) (hroom : s.depth + 3 ≤ limits.evaluation)
    (params : Value) (body : List Value) (env : Environment) :
    evaluate limits (defunExpansion (.text name) params body) env s =
      .ok (.text name) (s.afterClosure.afterGlobal name
        (.closure s.nextIdentity (word "fn" :: params :: body) env)) := by
  have hspecial : SpecialForm.ofName? (ofString "do") = some .sequence := rfl
  have hinside : (s.atDepth (s.depth + 1)).depth + 2 ≤ limits.evaluation := by
    rw [State.depth_atDepth]
    omega
  have hdef := evaluate_functionDefinition (s := s.atDepth (s.depth + 1)) hfree hinside params body
    env
  let t := s.afterClosure.afterGlobal name
    (.closure s.nextIdentity (word "fn" :: params :: body) env)
  have hquote : evaluate limits (.list [word "", .text name]) env (t.atDepth (s.depth + 1)) = _ :=
    (TakesLevels.quote (.text name)).ok (by omega)
  refine (evaluate_special hspecial (by omega) _ env).trans (nested_of_ok (t := t) ?_)
  exact (bind_of_ok hdef).trans hquote

theorem DefunIntact.evaluate_defunForm_name {limits : Limits} {s : State} (h : DefunIntact s)
    (hroom : s.depth + 6 ≤ limits.evaluation) {name : Text}
    (hfree : s.globals.contains name = false) (params : Value) (body : List Value)
    (env : Environment) :
    evaluate limits (defunForm (.text name) params body) env s =
      .ok (.text name) (s.afterClosure.afterGlobal name
        (.closure s.nextIdentity (word "fn" :: params :: body) env)) := by
  have hinside : (s.atDepth (s.depth + 1)).depth + 3 ≤ limits.evaluation := by
    rw [State.depth_atDepth]
    omega
  have hexpansion := evaluate_defunExpansion (s := s.atDepth (s.depth + 1)) hfree hinside params
    body env
  rw [h.evaluate_defunForm hroom]
  exact nested_of_ok (t := s.afterClosure.afterGlobal name _) hexpansion

/-! ### Calls of `not` -/

def notBody : Value := .list [word "if", word "x", .bool false, .bool true]

/-- `["fn", ["x"], ["if", "x", false, true]]`. -/
def notFunction : List Value := [word "fn", .list [word "x"], notBody]

theorem takes_notBody {limits : Limits} {s : State} (v : Value) :
    TakesLevels limits s 1
      (evaluate limits notBody (Environment.root.extend [(ofString "x", v)])) v.negation := by
  let scope := Environment.root.extend [(ofString "x", v)]
  have hx : TakesLevels limits s 0 (evaluate limits (word "x") scope) v := .name rfl
  have hbranch : TakesLevels limits s 0 (if v.isTrue then evaluate limits (.bool false) scope
      else evaluate limits (.bool true) scope) v.negation := by
    cases v with
    | null => exact .bool true
    | bool b => cases b <;> exact .bool _
    | int | float | text | list | map | closure | builtin => exact .bool false
  exact .form (hx.bind hbranch)

section Not

variable {limits : Limits} {s : State} {env : Environment} {i : Nat}

theorem applyValue_not (hroom : s.depth < limits.evaluation) (i : Nat) (v : Value) :
    applyValue (engine limits) (.closure i notFunction Environment.root) [v] s =
      .ok v.negation s :=
  (takes_notBody (s := s) v).ok (d := s.depth) (by omega)

/-- The argument of `not` is evaluated once, and its value is negated. -/
theorem evaluate_not
    (hglobal : s.globals.find? (ofString "not") = some (.closure i notFunction Environment.root))
    (hmacros : s.macros.contains (ofString "not") = false)
    (hlocal : env.find? (ofString "not") = none) (hroom : s.depth + 2 ≤ limits.evaluation)
    (e : Value) :
    evaluate limits (.list [word "not", e]) env s =
      Run.nested (do
        let v ← evaluate limits e env
        return v.negation) s := by
  rw [evaluate_form, if_neg (by omega)]
  refine nested_congr ?_
  have hhead : evaluate limits (word "not") env (s.atDepth (s.depth + 1)) =
      .ok (.closure i notFunction Environment.root) (s.atDepth (s.depth + 1)) :=
    (evaluate_text ..).trans (lookup_global hlocal hglobal)
  have hdepth := depth_evaluate limits e env (s.atDepth (s.depth + 1))
  refine (evalForm_name (s := s.atDepth (s.depth + 1)) rfl hmacros _ _).trans ?_
  refine (bind_of_ok hhead).trans ?_
  change ((evaluate limits e env >>= fun v => pure [v]) >>= fun values =>
    applyValue (engine limits) (.closure i notFunction Environment.root) values) _ = _
  rw [bind_assoc]
  cases hvalue : evaluate limits e env (s.atDepth (s.depth + 1)) with
  | error err t => rw [bind_of_error hvalue, bind_of_error hvalue]
  | ok v t =>
    -- The body of `not` has the depth at which its argument was evaluated.
    rw [hvalue, Outcome.state_ok, State.depth_atDepth] at hdepth
    rw [bind_of_ok hvalue, bind_of_ok hvalue]
    exact applyValue_not (by omega) i v

end Not

/-! ### The bootstrap programs -/

/-- The state of a session before the bootstrap programs: events may have been noted. -/
def fresh (events : List Event) : State := { initial with journal := events }

/-- The closures of the two programs are in the tables. -/
structure Bootstrapped (s : State) : Prop where
  defun : ∃ i, s.macros.find? (ofString "defun") =
    some (.closure i [word "fn", .list defunParams, defunTemplate] Environment.root)
  not : ∃ i, s.globals.find? (ofString "not") = some (.closure i notFunction Environment.root)

theorem Bootstrapped.grows {s t : State} (h : Bootstrapped s) (hgrows : s.Grows t) :
    Bootstrapped t := by
  obtain ⟨_, hgrows⟩ := hgrows
  obtain ⟨⟨i, hdefun⟩, j, hnot⟩ := h
  exact ⟨⟨i, hgrows.macros.find? hdefun⟩, j, hgrows.globals.find? hnot⟩

/-- After its definition the template of `defun` means what it says. -/
theorem defunIntact_fresh (events : List Event) (i : Nat) :
    DefunIntact ((fresh events).afterClosure.afterMacro (ofString "defun")
      (.closure i [word "fn", .list defunParams, defunTemplate] Environment.root)) where
  transformer := ⟨i, Table.find?_add_self _ _ _⟩
  list := rfl
  append := rfl
  noListMacro := rfl
  noAppendMacro := rfl

theorem evalTop_defunDefinition (limits : Limits) (events : List Event) :
    evalTop limits defunDefinition (fresh events) =
      if (0 : Nat) + 2 ≤ limits.evaluation then
        .ok (word "defun") ((fresh events).afterClosure.afterMacro (ofString "defun")
          (.closure 0 [word "fn", .list defunParams, defunTemplate] Environment.root))
      else .error (.nestedTooDeep limits.evaluation) (fresh events) :=
  evaluate_macroDefinition rfl defunParams [defunTemplate] Environment.root

/-- The state that the bootstrap programs leave. -/
def afterBootstrap (events : List Event) : State :=
  let t := ((fresh events).afterClosure.afterMacro (ofString "defun")
    (.closure 0 [word "fn", .list defunParams, defunTemplate] Environment.root)).afterClosure
    |>.afterGlobal (ofString "not") (.closure 1 notFunction Environment.root)
  { t with journal := .bootstrapComplete t.macros.names :: t.journal }

/-- The definition of `defun` takes two levels, and that of `not`, which is a call of `defun`, takes
six. -/
theorem bootstrap_fresh {limits : Limits} (hroom : 6 ≤ limits.evaluation) (events : List Event) :
    bootstrap limits (fresh events) = .ok () (afterBootstrap events) := by
  have hdefun := (evalTop_defunDefinition limits events).trans (if_pos (by omega))
  have hlevels : ((0 : Nat) : Int) + 6 ≤ limits.evaluation := by omega
  have hfree : (fresh events).globals.contains (ofString "not") = false := rfl
  have hnot := (defunIntact_fresh events 0).evaluate_defunForm_name hlevels hfree
    (.list [word "x"]) [notBody] Environment.root
  exact (bind_of_ok hdefun).trans (bind_of_ok hnot)

/-- With fewer than six levels one of the two definitions is refused. Nothing is printed. -/
theorem exists_bootstrap (limits : Limits) (events : List Event) :
    (6 ≤ limits.evaluation →
      ∃ t, bootstrap limits (fresh events) = .ok () t ∧ Bootstrapped t ∧ t.printed = []) ∧
    (limits.evaluation < 6 →
      ∃ t, bootstrap limits (fresh events) = .error (.nestedTooDeep limits.evaluation) t) := by
  refine ⟨fun hroom => ⟨_, bootstrap_fresh hroom events, ⟨⟨_, rfl⟩, _, rfl⟩, rfl⟩, fun hfull => ?_⟩
  have hdefun := evalTop_defunDefinition limits events
  by_cases hroom : 2 ≤ limits.evaluation
  · rw [if_pos (by omega)] at hdefun
    have hlevels : limits.evaluation < ((0 : Nat) : Int) + 6 := by omega
    have hnot := (defunIntact_fresh events 0).evaluate_defunForm_full hlevels (word "not")
      (.list [word "x"]) [notBody] Environment.root
    exact ⟨_, (bind_of_ok hdefun).trans (bind_of_error hnot)⟩
  · rw [if_neg (by omega)] at hdefun
    exact ⟨_, bind_of_error hdefun⟩

/-! ### The start of a session -/

theorem limitFrom_eq_ok {setting : Except SettingError Int} {given : Option Int} {n : Int}
    {s t : State} (h : limitFrom setting given s = .ok n t) : t = s := by
  cases given with
  | some n =>
    cases h
    rfl
  | none =>
    cases setting with
    | ok n =>
      cases h
      rfl
    | error e => cases h

/-- Frames that are reserved are noted, and too many are refused. -/
theorem reserveFrames_fresh (limits : Limits) :
    (framesFor limits.evaluation < Nat.pow 2 31 →
      ∃ events, reserveFrames limits initial = .ok () (fresh events)) ∧
    ∀ t, reserveFrames limits initial = .ok () t → ∃ events, t = fresh events := by
  unfold reserveFrames
  dsimp only
  split
  · split
    · rename_i hlarge
      exact ⟨fun hsmall => absurd hlarge (Int.not_le.2 hsmall), fun t h => by cases h⟩
    · exact ⟨fun _ => ⟨_, rfl⟩, fun t h => by cases h; exact ⟨_, rfl⟩⟩
  · exact ⟨fun _ => ⟨_, rfl⟩, fun t h => by cases h; exact ⟨_, rfl⟩⟩

/-- A start that succeeds has run the bootstrap programs and then the prelude. -/
theorem exists_runPrelude_of_start {surroundings : Surroundings} {files : Files} {prelude : Prelude}
    {expansion evaluation : Option Int} {limits : Limits} {s : State}
    (h : start surroundings files prelude expansion evaluation initial = .ok limits s) :
    ∃ t, Bootstrapped t ∧ t.printed = [] ∧
      runPrelude limits surroundings files prelude t = .ok () s := by
  rw [start_eq] at h
  obtain ⟨x, s₁, hx, h⟩ := bind_eq_ok h
  obtain ⟨n, s₂, hn, h⟩ := bind_eq_ok h
  obtain ⟨⟨⟩, s₃, hframes, h⟩ := bind_eq_ok h
  obtain ⟨⟨⟩, s₄, hbootstrap, h⟩ := bind_eq_ok h
  obtain ⟨⟨⟩, s₅, hprelude, h⟩ := bind_eq_ok h
  cases h
  cases limitFrom_eq_ok hx
  cases limitFrom_eq_ok hn
  obtain ⟨events, rfl⟩ := (reserveFrames_fresh _).2 _ hframes
  have hrun := Start.ofRun_eq_ok hbootstrap
  obtain ⟨hroom, hfull⟩ := exists_bootstrap ⟨x, n⟩ events
  by_cases hlevels : 6 ≤ n
  · obtain ⟨t, ht, hs, hprinted⟩ := hroom hlevels
    rw [ht] at hrun
    cases hrun
    exact ⟨s₄, hs, hprinted, hprelude⟩
  · obtain ⟨t, ht⟩ := hfull (by exact Int.not_le.1 hlevels)
    rw [ht] at hrun
    cases hrun

/-- What a session leaves in the tables before its prelude stays there. -/
theorem bootstrapped_of_start {surroundings : Surroundings} {files : Files} {prelude : Prelude}
    {expansion evaluation : Option Int} {limits : Limits} {s : State}
    (h : start surroundings files prelude expansion evaluation initial = .ok limits s) :
    Bootstrapped s := by
  obtain ⟨t, ht, -, hprelude⟩ := exists_runPrelude_of_start h
  have hgrows := growthLaw.holds_runPrelude limits surroundings files prelude t
  rw [hprelude] at hgrows
  exact ht.grows hgrows

theorem Reachable.bootstrapped {limits : Limits} {s : State} (h : Reachable limits s) :
    Bootstrapped s := by
  obtain ⟨_, _, _, _, _, s₀, hstart, hlater⟩ := h
  exact (bootstrapped_of_start hstart).grows hlater.grows

/-- The functions that the template of `defun` calls cannot be redefined, only hidden by macros. -/
theorem Reachable.defunIntact {limits : Limits} {s : State} (h : Reachable limits s)
    (hlist : s.macros.contains (ofString "list") = false)
    (happend : s.macros.contains (ofString "append") = false) : DefunIntact s := by
  obtain ⟨_, hgrows⟩ := h.grows
  exact ⟨h.bootstrapped.defun, hgrows.globals.find? rfl, hgrows.globals.find? rfl, hlist, happend⟩

/-- Where the limits are known, a start without a prelude is the run of the bootstrap programs. -/
theorem start_bootstrap {surroundings : Surroundings} (files : Files)
    {expansion evaluation : Option Int} {x n : Int}
    (hexpansion : limitFrom surroundings.expansionLimit expansion = pure x)
    (hevaluation : limitFrom surroundings.evaluationLimit evaluation = pure n)
    (hframes : framesFor n < Nat.pow 2 31) :
    ∃ events, start surroundings files .none expansion evaluation initial =
      (do Start.ofRun (bootstrap ⟨x, n⟩); return (⟨x, n⟩ : Limits)) (fresh events) := by
  obtain ⟨events, hevents⟩ := (reserveFrames_fresh ⟨x, n⟩).1 hframes
  refine ⟨events, ?_⟩
  rw [start_eq, hexpansion, hevaluation, pure_bind, pure_bind]
  exact bind_of_ok hevents

/-! ### The meaning of the bootstrap programs -/

/-- A call of `defun` is expanded in one step and without effects, which takes five levels, and with
the level of the call itself it is evaluated as its expansion. For a free name the global table has
then the function under this name, and nothing else is new in the tables. With fewer levels the call
is refused and changes nothing. -/
structure DefunKept (limits : Limits) (s : State) : Prop where
  expands : ∀ (f params : Value) (body : List Value) (d : Nat), d + 5 ≤ limits.evaluation →
    expandStep limits (defunForm f params body) (s.atDepth d) =
        .ok (defunExpansion f params body) (s.atDepth d) ∧
      expand limits (defunForm f params body) (s.atDepth d) =
        .ok (defunExpansion f params body) (s.atDepth d)
  evaluates : ∀ (f params : Value) (body : List Value) (env : Environment) (d : Nat),
    d + 6 ≤ limits.evaluation →
    evaluate limits (defunForm f params body) env (s.atDepth d) =
      Run.nested (evaluate limits (defunExpansion f params body) env) (s.atDepth d)
  defines : ∀ (name : Text) (params : Value) (body : List Value) (env : Environment) (d : Nat),
    d + 6 ≤ limits.evaluation → s.globals.contains name = false →
    evaluate limits (defunForm (.text name) params body) env (s.atDepth d) =
      .ok (.text name) ((s.atDepth d).afterClosure.afterGlobal name
        (.closure s.nextIdentity (word "fn" :: params :: body) env))
  refuses : ∀ (f params : Value) (body : List Value) (env : Environment) (d : Nat),
    limits.evaluation < d + 6 →
    evaluate limits (defunForm f params body) env (s.atDepth d) =
      .error (.nestedTooDeep limits.evaluation) (s.atDepth d)

/-- With two levels left, and where no local binding hides it, `not` evaluates its argument once and
negates the value. -/
def NotKept (limits : Limits) (s : State) : Prop :=
  ∀ (e : Value) (env : Environment) (d : Nat), env.find? (ofString "not") = none →
    d + 2 ≤ limits.evaluation →
    evaluate limits (.list [word "not", e]) env (s.atDepth d) =
      Run.nested (do
        let v ← evaluate limits e env
        return v.negation) (s.atDepth d)

theorem DefunIntact.kept {limits : Limits} {s : State} (h : DefunIntact s) :
    DefunKept limits s where
  expands f params body _ hroom :=
    ⟨(h.takes_expandOnce f params body).ok hroom,
      (h.takes_expandCall limits.expansion f params body).ok hroom⟩
  evaluates f params body env d hroom := (h.atDepth d).evaluate_defunForm hroom f params body env
  defines _ params body env d hroom hfree :=
    (h.atDepth d).evaluate_defunForm_name hroom hfree params body env
  refuses f params body env d hfull := (h.atDepth d).evaluate_defunForm_full hfull f params body env

theorem Reachable.notKept {limits : Limits} {s : State} (h : Reachable limits s)
    (hmacros : s.macros.contains (ofString "not") = false) : NotKept limits s := by
  obtain ⟨i, hnot⟩ := h.bootstrapped.not
  exact fun e env d hlocal hroom => evaluate_not (s := s.atDepth d) hnot hmacros hlocal hroom e

end Session

open Session (Reachable DefunKept NotKept limitFrom framesFor start initial)

/-- In every state of a session `defun` has its meaning unless there is a macro `list` or `append`,
and `not` has its meaning unless there is a macro `not`. A session without a prelude starts if its
limit of nesting is at least six and not too large for the frames that are reserved; with a smaller
limit the start is refused in the bootstrap programs. -/
theorem bootstrap_kept :
    (∀ limits s, Reachable limits s → s.macros.contains (ofString "list") = false →
      s.macros.contains (ofString "append") = false → DefunKept limits s) ∧
    (∀ limits s, Reachable limits s → s.macros.contains (ofString "not") = false →
      NotKept limits s) ∧
    ∀ surroundings files expansion evaluation x n,
      limitFrom surroundings.expansionLimit expansion = pure x →
      limitFrom surroundings.evaluationLimit evaluation = pure n →
      (6 ≤ n → framesFor n < Nat.pow 2 31 →
        ∃ s, start surroundings files .none expansion evaluation initial = .ok ⟨x, n⟩ s) ∧
      (n < 6 → ∃ s, start surroundings files .none expansion evaluation initial =
        .error (.evaluation (.nestedTooDeep n)) s) := by
  refine ⟨fun limits s h hlist happend => (h.defunIntact hlist happend).kept,
    fun limits s h hmacros => h.notKept hmacros, ?_⟩
  intro surroundings files expansion evaluation x n hexpansion hevaluation
  refine ⟨fun hroom hframes => ?_, fun hfull => ?_⟩
  · obtain ⟨events, hstart⟩ := Session.start_bootstrap files hexpansion hevaluation hframes
    obtain ⟨s, hs, -⟩ := (Session.exists_bootstrap ⟨x, n⟩ events).1 hroom
    exact ⟨s, hstart.trans (bind_of_ok (Session.Start.ofRun_of_ok hs))⟩
  · have hframes : framesFor n < Nat.pow 2 31 := by
      have hpow : Nat.pow 2 31 = 2147483648 := rfl
      rw [hpow, framesFor]
      omega
    obtain ⟨events, hstart⟩ := Session.start_bootstrap files hexpansion hevaluation hframes
    obtain ⟨s, hs⟩ := (Session.exists_bootstrap ⟨x, n⟩ events).2 hfull
    exact ⟨s, hstart.trans (bind_of_error (Session.Start.ofRun_of_error hs))⟩

/-- A session with six levels starts, and has both functions. -/
theorem bootstrap_kept_sixLevels :
    ∃ s, start ⟨[], fun _ => none⟩ (fun path => .error (.refused .missing path)) .none (some 1)
        (some 6) initial = .ok ⟨1, 6⟩ s ∧
      s.macros.names = [ofString "defun", ofString "let"] ∧ DefunKept ⟨1, 6⟩ s ∧
      NotKept ⟨1, 6⟩ s := by
  obtain ⟨hdefun, hnot, hstarts⟩ := bootstrap_kept
  obtain ⟨s, hs⟩ := (hstarts ⟨[], fun _ => none⟩ (fun path => .error (.refused .missing path))
    (some 1) (some 6) 1 6 rfl rfl).1 (by decide) (by decide)
  have hreach : Reachable ⟨1, 6⟩ s := ⟨_, _, _, _, _, s, hs, .refl⟩
  have hnames : (Outcome.state (start ⟨[], fun _ => none⟩
      (fun path => .error (.refused .missing path)) .none (some 1) (some 6) initial)).macros.names =
      [ofString "defun", ofString "let"] := by decide +kernel
  rw [hs, Outcome.state_ok] at hnames
  have hfree {name : Text} (h : name ∉ [ofString "defun", ofString "let"]) :
      s.macros.contains name = false := by
    rw [← Bool.not_eq_true, ← Table.mem_names, hnames]
    exact h
  exact ⟨s, hs, hnames, hdefun _ s hreach (hfree (by decide)) (hfree (by decide)),
    hnot _ s hreach (hfree (by decide))⟩

/-- Five levels are too few for the start of a session. -/
theorem start_fiveLevels : ¬ ∀ n : Int, ∃ s, start ⟨[], fun _ => none⟩
    (fun path => .error (.refused .missing path)) .none (some 1000) (some n) initial =
      .ok ⟨1000, n⟩ s := by
  intro h
  obtain ⟨s, hs⟩ := h 5
  have hrefused : (Outcome.value? (start ⟨[], fun _ => none⟩
      (fun path => .error (.refused .missing path)) .none (some 1000) (some 5) initial)).isNone =
      true := by decide +kernel
  rw [hs] at hrefused
  cases hrefused

end JsonLisp

import JsonLisp.Proofs.Evaluation.Applications
import JsonLisp.Proofs.Evaluation.Levels
import JsonLisp.Proofs.Evaluation.Termination
import JsonLisp.Proofs.Pattern

/-!
# What is passed on

Names, quoted forms, lists, maps, parameters and `p` pass closures on: those that come out are those
that went in, each of them, and no others. A closure is not copied, so that it comes out with its
identity.

## Main definitions

* `PassesOn`: functions that pass on some of their arguments, or parts of these.
* `Passes`: forms that pass on some values.

## Main statements

* `Pattern.Matches.occurs_iff`: the closures in the bindings of a pattern.
* `Passes.evaluates`: such a form has a value, and which closures are in it.
-/

namespace JsonLisp

open Text (ofString)
open Value (Occurs PartOf IsClosure)

variable {limits : Limits} {s t : State} {env : Environment} {c : Value}

/-! ### Bindings -/

/-- Binding distributes the arguments over the names of a pattern, and takes lists apart on the
way. -/
theorem Pattern.Matches.occurs_iff {params args : List Value} (h : Pattern.Matches params args)
    (hc : c.IsClosure) {frame : Frame} (hframe : Pattern.bind params args = .ok frame) :
    Occurs c (frame.map Prod.snd) ↔ Occurs c args := by
  induction h generalizing frame with
  | nil =>
    cases hframe
    exact Iff.rfl
  | rest name args =>
    rw [Pattern.bind_cons, if_pos (Pattern.isRestMarker_text.2 rfl)] at hframe
    cases hframe
    simp [hc.partOf_list]
  | name arg hname _ ih =>
    rw [Pattern.bind_cons, if_neg (by rwa [Pattern.isRestMarker_text])] at hframe
    obtain ⟨first, hfirst, hframe⟩ := exists_of_bind_eq_ok hframe
    obtain ⟨later, hlater, hframe⟩ := exists_of_bind_eq_ok hframe
    cases hfirst
    cases hframe
    simp [ih hlater]
  | nested _ _ ihitems ih =>
    rw [Pattern.bind_cons, if_neg (by simp [Pattern.isRestMarker])] at hframe
    obtain ⟨first, hfirst, hframe⟩ := exists_of_bind_eq_ok hframe
    obtain ⟨later, hlater, hframe⟩ := exists_of_bind_eq_ok hframe
    cases hframe
    simp [hc.partOf_list, ihitems hfirst, ih hlater]

/-! ### Functions -/

/-- A function that passes on the values `given` when it is called with the arguments `values`: `p`
and those that make lists pass on their arguments, a map the value under a key, and a closure whose
body is a name what the name means. -/
inductive PassesOn : Value → (values given : List Value) → Prop
  | list (values : List Value) : PassesOn (.builtin (ofString "list")) values values
  | append (lists : List (List Value)) :
    PassesOn (.builtin (ofString "append")) (lists.map .list) (lists.map .list)
  | conj (xs : List Value) (item : Value) (items : List Value) :
    PassesOn (.builtin (ofString "conj")) (.list xs :: item :: items) (.list xs :: item :: items)
  | cons (item : Value) (xs : List Value) :
    PassesOn (.builtin (ofString "cons")) [item, .list xs] [item, .list xs]
  | print {values : List Value} {texts : List Text} (h : values.mapM Value.encode = .ok texts) :
    PassesOn (.builtin (ofString "p")) values values
  | entry {entries : List (Text × Value)} {key : Text} {v : Value}
      (h : valueUnder? key entries = some v) (more : List Value) :
    PassesOn (.map entries) (.text key :: more) [v]
  | parameter {identity : Nat} {head : Value} {params values : List Value} {scope : Environment}
      {frame : Frame} {name : Text} {v : Value} (hframe : Pattern.bind params values = .ok frame)
      (hname : (scope.extend frame).find? name = some v) :
    PassesOn (.closure identity [head, .list params, .text name] scope) values [v]

theorem Value.IsClosure.partOf_passedOn (hc : c.IsClosure) (vs : List Value) :
    PartOf c (Primitive.passedOn vs) ↔ Occurs c vs := by
  match vs with
  | [] => simpa using hc.not_partOf_atom rfl
  | [v] => simp [Primitive.passedOn]
  | _ :: _ :: _ => exact hc.partOf_list

theorem mapM_list?_map (lists : List (List Value)) :
    (lists.map Value.list).mapM Value.list? = some lists := by
  induction lists with
  | nil => rfl
  | cons items rest ih => simp [Value.list?, ih]

theorem PassesOn.applies {f : Value} {values given : List Value} (h : PassesOn f values given)
    (limits : Limits) (s : State) : ∃ v t, applyValue (engine limits) f values s = .ok v t ∧
      ∀ c, c.IsClosure → (PartOf c v ↔ Occurs c given) := by
  cases h with
  | list => exact ⟨_, s, rfl, fun c hc => hc.partOf_list⟩
  | append lists =>
    refine ⟨.list lists.flatten, s, ?_, fun c hc => hc.partOf_list.trans hc.occurs_flatten⟩
    change Run.ofExcept (Primitive.concatenate (lists.map .list)) s = _
    rw [Primitive.concatenate, mapM_list?_map]
    rfl
  | conj xs item items =>
    refine ⟨_, s, rfl, fun c hc => ?_⟩
    simp [hc.partOf_list]
  | cons item xs =>
    refine ⟨_, s, rfl, fun c hc => ?_⟩
    simp [hc.partOf_list]
  | print hencode =>
    have hall := Primitive.printAll_eq values s
    rw [hencode] at hall
    exact ⟨_, _, bind_of_ok hall, fun c hc => hc.partOf_passedOn values⟩
  | @entry entries key v hkey more =>
    refine ⟨v, s, ?_, fun c _ => by simp⟩
    change Run.ofExcept (applyMap entries (.text key :: more)) s = _
    rw [applyMap, hkey]
    rfl
  | @parameter identity head params _ scope frame name v hframe hname =>
    refine ⟨v, s, ?_, fun c _ => by simp⟩
    have hbind : (Run.ofExcept (Pattern.bind params values) : Run Frame) s = .ok frame s := by
      rw [hframe]
      rfl
    refine (bind_of_ok hbind).trans ((evaluate_text limits name _ s).trans ?_)
    rw [lookup, hname]
    rfl

/-! ### Maps -/

/-- The values of a map are evaluated as arguments are. -/
theorem evalEntries_eq {onForm : Value → List Value → Environment → Run Value} {d : Nat}
    (h : ∀ v, ∀ t : State, t.depth = d → evalWith onForm v env t = evaluate limits v env t)
    (entries : List (Text × Value)) (hs : s.depth = d) :
    evalEntries onForm entries env s =
      (evalArguments (evaluate limits) env (entries.map Prod.snd) >>= fun values =>
        pure ((entries.map Prod.fst).zip values)) s := by
  induction entries generalizing s with
  | nil => rfl
  | cons e rest ih =>
    obtain ⟨key, v⟩ := e
    have hdepth := depth_evaluate limits v env s
    change (evalWith onForm v env >>= fun value => evalEntries onForm rest env >>= fun es =>
      pure ((key, value) :: es)) s = ((evaluate limits v env >>= fun value =>
        evalArguments (evaluate limits) env (rest.map Prod.snd) >>= fun values =>
          pure (value :: values)) >>= fun values => pure ((key :: rest.map Prod.fst).zip values)) s
    rw [bind_congr_left (h v s hs), bind_assoc]
    cases hvalue : evaluate limits v env s with
    | error err t => rw [bind_of_error hvalue, bind_of_error hvalue]
    | ok value t =>
      rw [hvalue, Outcome.state_ok] at hdepth
      rw [bind_of_ok hvalue, bind_of_ok hvalue, bind_congr_left (ih (hdepth.trans hs)), bind_assoc,
        bind_assoc]
      rfl

theorem evaluate_map (limits : Limits) (entries : List (Text × Value)) (env : Environment)
    (s : State) : evaluate limits (.map entries) env s =
      (evalArguments (evaluate limits) env (entries.map Prod.snd) >>= fun values =>
        pure (.map ((entries.map Prod.fst).zip values))) s := by
  obtain ⟨onForm, honForm⟩ : ∃ onForm, evalLevels Primitive.run limits (levelsLeft limits s) =
      evalWith onForm := by
    cases levelsLeft limits s <;> exact ⟨_, rfl⟩
  have hforms : ∀ v, ∀ t : State, t.depth = s.depth →
      evalWith onForm v env t = evaluate limits v env t := by
    intro v t ht
    rw [← honForm, levelsLeft, ← ht]
    rfl
  have hentries := evalEntries_eq hforms entries rfl
  change evalLevels Primitive.run limits (levelsLeft limits s) (.map entries) env s = _
  rw [honForm, evalWith]
  refine (bind_congr_left hentries).trans ?_
  rw [bind_assoc]
  rfl

theorem length_evalArguments {ev : Eval} {forms values : List Value}
    (h : evalArguments ev env forms s = .ok values t) : values.length = forms.length := by
  induction forms generalizing values s with
  | nil =>
    cases h
    rfl
  | cons form rest ih =>
    obtain ⟨value, u, -, h⟩ := bind_eq_ok h
    obtain ⟨later, u', hlater, h⟩ := bind_eq_ok h
    cases h
    rw [List.length_cons, List.length_cons, ih hlater]

/-! ### Forms -/

/-- At the head of a form the value is evaluated and called: it names no special form and no
macro. -/
def State.CallsHead (s : State) (head : Value) : Prop :=
  ∀ name, head = .text name → SpecialForm.ofName? name = none ∧ s.macros.contains name = false

theorem evaluate_call {head : Value} (hhead : s.CallsHead head)
    (hroom : s.depth < limits.evaluation) (args : List Value) (env : Environment) :
    evaluate limits (.list (head :: args)) env s =
      Run.nested (evalCall (engine limits) head args env) s := by
  rw [evaluate_form, if_neg (by omega)]
  refine nested_congr ?_
  cases head with
  | text name =>
    obtain ⟨hspecial, hmacros⟩ := hhead name rfl
    exact evalForm_name (s := s.atDepth (s.depth + 1)) hspecial hmacros args env
  | null | bool | int | float | list | map | closure | builtin => rfl

/-- From the state `s` the form passes on the values `given`: a name passes on what it means, code
the closures in it, a quoted form its parts, also as the expansion of a macro, a definition its
value, a map its values, and a call what the function passes on. -/
inductive Passes (limits : Limits) (s : State) (env : Environment) : Value → List Value → Prop
  | localName {name : Text} {v : Value} (h : env.find? name = some v) :
    Passes limits s env (.text name) [v]
  | globalName {name : Text} {v : Value} (hlocal : env.find? name = none)
      (h : s.globals.find? name = some v) : Passes limits s env (.text name) [v]
  | code (identity : Nat) (form : List Value) (scope : Environment) :
    Passes limits s env (.closure identity form scope) [.closure identity form scope]
  | quoted {name : Text} (hname : SpecialForm.ofName? name = some .quote)
      (hroom : s.depth < limits.evaluation) (part : Value) (parts : List Value) :
    Passes limits s env (.list (.text name :: part :: parts)) (part :: parts)
  | expansion {name quote : Text} {args parts : List Value} {part : Value} {t : State}
      (hspecial : SpecialForm.ofName? name = none) (hmacros : s.macros.contains name = true)
      (hroom : s.depth + 1 < limits.evaluation)
      (hquote : SpecialForm.ofName? quote = some .quote)
      (hexpand : expandCall (engine limits) limits.expansion name args (s.atDepth (s.depth + 1)) =
        .ok (.list (.text quote :: part :: parts)) t) :
    Passes limits s env (.list (.text name :: args)) (part :: parts)
  | definition {name : Text} {form v : Value} {t : State} (hroom : s.depth < limits.evaluation)
      (hfree : s.globals.contains name = false)
      (hform : evaluate limits form env (s.atDepth (s.depth + 1)) = .ok v t)
      (hlater : t.globals.contains name = false) :
    Passes limits s env (.definition name form) [v]
  | mapping {entries : List (Text × Value)} {values : List Value} {t : State}
      (h : evalArguments (evaluate limits) env (entries.map Prod.snd) s = .ok values t) :
    Passes limits s env (.map entries) values
  | call {head f : Value} {args values given : List Value} {t u : State} (hhead : s.CallsHead head)
      (hroom : s.depth < limits.evaluation)
      (hf : evaluate limits head env (s.atDepth (s.depth + 1)) = .ok f t)
      (hargs : evalArguments (evaluate limits) env args t = .ok values u)
      (hpasses : PassesOn f values given) : Passes limits s env (.list (head :: args)) given

theorem nested_eq_ok {α : Type} {m : Run α} {a : α}
    (h : m (s.atDepth (s.depth + 1)) = .ok a t) :
    Run.nested m s = .ok a (t.atDepth (t.depth - 1)) := by
  rw [nested_eq_mapState, h]
  rfl

theorem runQuote_eq (part : Value) (parts : List Value) :
    SpecialForm.runQuote (part :: parts) = pure (Primitive.passedOn (part :: parts)) := by
  cases parts <;> rfl

theorem evaluate_quoted {name : Text} (hname : SpecialForm.ofName? name = some .quote)
    (hroom : s.depth < limits.evaluation) (part : Value) (parts : List Value)
    (env : Environment) : evaluate limits (.list (.text name :: part :: parts)) env s =
      .ok (Primitive.passedOn (part :: parts)) s := by
  rw [evaluate_special hname hroom]
  refine nested_of_ok (t := s) ?_
  rw [SpecialForm.run, runQuote_eq]
  rfl

/-- A form that passes values on has a value, and the closures in it are those in the values, each
with its identity, its form and its scope. -/
theorem Passes.evaluates {form : Value} {given : List Value} (h : Passes limits s env form given) :
    ∃ v t, evaluate limits form env s = .ok v t ∧
      ∀ c, c.IsClosure → (PartOf c v ↔ Occurs c given) := by
  cases h with
  | @localName name v hlocal =>
    refine ⟨v, s, ?_, fun c _ => by simp⟩
    rw [evaluate_text, lookup, hlocal]
    rfl
  | @globalName name v hlocal hglobal =>
    exact ⟨v, s, (evaluate_text ..).trans (lookup_global hlocal hglobal), fun c _ => by simp⟩
  | code identity form scope =>
    have hcode : TakesLevels limits s 0 (evaluate limits (.closure identity form scope) env)
        (.closure identity form scope) := .constant fun _ => rfl
    exact ⟨_, s, (hcode s.depth).trans (if_pos (Nat.zero_le _)), fun c _ => by simp⟩
  | quoted hname hroom part parts =>
    exact ⟨_, s, evaluate_quoted hname hroom part parts env, fun c hc => hc.partOf_passedOn _⟩
  | @expansion name quote args parts part t hspecial hmacros hroom hquote hexpand =>
    have hdepth := (Recursion.follows_expand (Recursion.followsEngine_session limits _) name args
      (s.atDepth (s.depth + 1)) rfl).2
    rw [hexpand, Outcome.state_ok, State.depth_atDepth] at hdepth
    have hroom' : t.depth < limits.evaluation := by omega
    have hquoted := evaluate_quoted hquote hroom' part parts env
    refine ⟨_, t.atDepth (t.depth - 1), ?_, fun c hc => hc.partOf_passedOn (part :: parts)⟩
    rw [evaluate_macroCall hspecial hmacros (by omega)]
    exact nested_eq_ok ((bind_of_ok hexpand).trans hquoted)
  | @definition name form v t hroom hfree hform hlater =>
    refine ⟨v, (t.afterGlobal name v).atDepth (t.depth - 1), ?_, fun c _ => by simp⟩
    rw [evaluate_definition, if_neg (by omega)]
    have hrun := runDefine_name (evaluate limits) env name form (s.atDepth (s.depth + 1))
    exact nested_eq_ok ((hrun.trans (if_neg (ne_true_of_eq_false hfree))).trans
      ((bind_of_ok hform).trans (bind_of_ok (defineGlobal_free hlater v))))
  | @mapping entries values t hvalues =>
    refine ⟨_, t, (evaluate_map limits entries env s).trans (bind_of_ok hvalues), fun c hc => ?_⟩
    have hlength := length_evalArguments hvalues
    rw [hc.partOf_map, List.map_snd_zip (by simp [hlength])]
  | call hhead hroom hf hargs hpasses =>
    obtain ⟨v, w, happly, hclosures⟩ := hpasses.applies limits _
    refine ⟨v, w.atDepth (w.depth - 1), ?_, hclosures⟩
    rw [evaluate_call hhead hroom]
    exact nested_eq_ok ((bind_of_ok hf).trans ((bind_of_ok hargs).trans happly))

end JsonLisp

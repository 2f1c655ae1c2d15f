import TmmsServer.Base.StringUtils
import TmmsServer.Lib.Decimal
import TmmsServer.Lib.Scan

/-!
# The command line

`Env::parse` stores the options of the command line, `Env::positionalArgs` lists what
is none; each goes through the arguments by a rule of its own for the values of options.
-/
namespace TmmsServer
open Lib Lib.Scan

namespace Env

/-- `options_` -/
abbrev Options := List UInt8 → Option (List UInt8)

def Options.set (options : Options) (key value : List UInt8) : Options := Function.update options key (some value)

/-- A pass of the loop of `parse`: the options then, and whether the next argument is skipped. -/
def parseArg (options : Options) (arg : List UInt8) (next : Option (List UInt8)) : Options × Bool :=
  if (text "--").isPrefixOf arg then
    match arg.findIdx? (· = 61) with
    | some pos => (options.set ((arg.drop 2).take (pos - 2)) (arg.drop (pos + 1)), false)
    | none => (options.set (arg.drop 2) [], false)
  else if arg.head? = some 45 then
    let key := arg.drop 1
    if 1 < key.length ∧ ¬ key.head?.any Decimal.isDigit = true then
      (key.foldl (fun options c => options.set [c] []) options, false)
    else
      match next with
      | some value => if value.head? ≠ some 45 then (options.set key value, true) else (options.set key [], false)
      | none => (options.set key [], false)
  else (options, false)

def parseLoop (options : Options) : List (List UInt8) → Options
  | [] => options
  | [arg] => (parseArg options arg none).1
  | arg :: next :: rest =>
      let pass := parseArg options arg (some next)
      if pass.2 then parseLoop pass.1 rest else parseLoop pass.1 (next :: rest)

def positionalLoop : List (List UInt8) → List (List UInt8)
  | [] => []
  | [arg] => if arg.head? ≠ some 45 then [arg] else []
  | arg :: next :: rest =>
      if arg.head? ≠ some 45 then arg :: positionalLoop (next :: rest)
      else if next.head? ≠ some 45 ∧ 61 ∉ arg then positionalLoop rest
      else positionalLoop (next :: rest)

end Env

structure Env where
  argv : List (List UInt8) := []
  options : Env.Options := fun _ => none

namespace Env

/-- The arguments behind the program name. -/
def arguments (e : Env) : List (List UInt8) := e.argv.drop 1

def parse (e : Env) (argv : List (List UInt8)) : Env where
  argv := e.argv ++ argv
  options := parseLoop e.options ((e.argv ++ argv).drop 1)

def positionalArgs (e : Env) : List (List UInt8) := positionalLoop e.arguments

/-! ## The two rules -/

def isOption (arg : List UInt8) : Bool := arg.head? == some 45

/-- The pass of `parse` for the first argument skips the second, which it stores as the value. -/
def parseTakes (arg next : List UInt8) : Bool := (parseArg (fun _ => none) arg (some next)).2

/-- `positionalArgs` skips the second argument behind the first. -/
def positionalTakes (arg next : List UInt8) : Bool := isOption arg && !isOption next && !arg.contains 61

/-- `parse` looks for a value behind the option: it is a short one, of one character or a number. -/
def takesValue (arg : List UInt8) : Bool :=
  !(text "--").isPrefixOf arg && !(1 < (arg.drop 1).length && !(arg.drop 1).head?.any Decimal.isDigit)

/-- The rule of `parse` for values. -/
def stores (arg next : List UInt8) : Bool := isOption arg && !isOption next && takesValue arg

/-- What each argument is to `parse`: an option, a value it stores, or neither. -/
def parseRoles (e : Env) : List Role := roles isOption (scan parseTakes e.arguments)

/-- What each argument is to `positionalArgs`: an option, one that it skips, or one that it lists. -/
def positionalRoles (e : Env) : List Role := roles isOption (scan positionalTakes e.arguments)

/-- Every argument is an option, a stored value or listed, and only one of these, and listed are those that `parse`
takes for neither. -/
def Consistent (e : Env) : Prop :=
  (∀ i < e.arguments.length, ExactlyOne (e.parseRoles[i]? = some .marked) (e.parseRoles[i]? = some .taken)
    (e.positionalRoles[i]? = some .free)) ∧
  e.positionalArgs = (e.arguments.zip e.parseRoles).filterMap fun p => if p.2 = .free then some p.1 else none

theorem guarded_and (rule : List UInt8 → Bool) :
    Guarded isOption fun arg next => isOption arg && !isOption next && rule arg := by
  intro arg next h
  simp only [Bool.and_eq_true, Bool.not_eq_true'] at h
  exact h.1

theorem positionalTakes_guarded : Guarded isOption positionalTakes := guarded_and fun arg => !arg.contains 61

section Pass
variable {options : Options} {arg next : List UInt8}

theorem shortKey_iff {n : Nat} {digit : Bool} :
    (!(decide (1 < n) && !digit)) = true ↔ ¬ (1 < n ∧ ¬ digit = true) := by cases digit <;> simp

theorem isOption_iff : isOption arg = true ↔ arg.head? = some 45 := beq_iff_eq

theorem parseArg_value (h : stores arg next = true) :
    parseArg options arg (some next) = (options.set (arg.drop 1) next, true) := by
  rw [stores, takesValue, Bool.and_eq_true, Bool.and_eq_true, Bool.and_eq_true] at h
  obtain ⟨⟨harg, hnext⟩, hlong, hkey⟩ := h
  have hplain : next.head? ≠ some 45 := by simpa [isOption] using hnext
  have hshort : (text "--").isPrefixOf arg = false := by simpa only [Bool.not_eq_true'] using hlong
  rw [parseArg, if_neg (Bool.eq_false_iff.mp hshort), if_pos (isOption_iff.mp harg)]
  dsimp only
  rw [if_neg (shortKey_iff.mp hkey), if_pos hplain]

/-- An argument that is no value is not looked at. -/
theorem parseArg_alone (h : ¬ stores arg next = true) :
    parseArg options arg (some next) = ((parseArg options arg none).1, false) := by
  unfold parseArg
  split
  · split <;> rfl
  · next hlong =>
      split
      next harg =>
        dsimp only
        split
        · rfl
        next hkey =>
          split
          next hnext =>
            refine absurd ?_ h
            have hopt : isOption arg = true := isOption_iff.mpr harg
            have hplain : isOption next = false := Bool.eq_false_iff.mpr fun heq => hnext (isOption_iff.mp heq)
            rw [stores, takesValue, hopt, hplain, Bool.eq_false_iff.mpr hlong, shortKey_iff.mpr hkey]
            rfl
          · rfl
      · rfl

theorem parseTakes_eq : parseTakes = stores := by
  funext arg next
  by_cases h : stores arg next = true
  · rw [parseTakes, parseArg_value h, h]
  · rw [parseTakes, parseArg_alone h, Bool.eq_false_iff.mpr h]

theorem parseTakes_guarded : Guarded isOption parseTakes := by
  rw [parseTakes_eq]
  exact guarded_and takesValue

end Pass

/-! ## The loops as scans -/

theorem parseLoop_eq (options : Options) (args : List (List UInt8)) : parseLoop options args =
    (scan parseTakes args).foldl (fun options entry => (parseArg options entry.1 entry.2).1) options := by
  rw [parseTakes_eq]
  fun_induction scan stores args generalizing options with
  | case1 => rfl
  | case2 arg => rfl
  | case3 arg next rest htakes ih =>
      rw [parseLoop, parseArg_value htakes, List.foldl_cons, parseArg_value htakes]
      exact ih _
  | case4 arg next rest htakes ih =>
      rw [parseLoop, parseArg_alone htakes]
      exact ih _

/-- What is listed is what the scan of `positionalArgs` leaves free. -/
theorem positionalLoop_eq (args : List (List UInt8)) :
    positionalLoop args = free isOption (scan positionalTakes args) := by
  fun_induction scan positionalTakes args with
  | case1 => rfl
  | case2 arg =>
      rw [positionalLoop]
      by_cases harg : isOption arg = true
      · simp [free, harg, isOption_iff.mp harg]
      · have hplain : arg.head? ≠ some 45 := fun heq => harg (isOption_iff.mpr heq)
        simp [free, harg, hplain]
  | case3 arg next rest htakes ih =>
      have hrule : (arg.head? = some 45 ∧ ¬ next.head? = some 45) ∧ 61 ∉ arg := by
        simpa [positionalTakes, isOption] using htakes
      rw [positionalLoop, if_neg (not_not.mpr hrule.1.1), if_pos ⟨hrule.1.2, hrule.2⟩, ih]
      rfl
  | case4 arg next rest htakes ih =>
      rw [positionalLoop]
      by_cases harg : isOption arg = true
      · have hrule : ¬ (next.head? ≠ some 45 ∧ 61 ∉ arg) := by
          simpa [positionalTakes, isOption, isOption_iff.mp harg] using htakes
        rw [if_neg (not_not.mpr (isOption_iff.mp harg)), if_neg hrule, ih]
        simp [free, harg]
      · have hplain : arg.head? ≠ some 45 := fun heq => harg (isOption_iff.mpr heq)
        rw [if_pos hplain, ih]
        simp [free, harg]

theorem parse_options (e : Env) (argv : List (List UInt8)) : (e.parse argv).options =
    (scan parseTakes (e.parse argv).arguments).foldl (fun options entry => (parseArg options entry.1 entry.2).1)
      e.options := parseLoop_eq _ _

/-! ## Where they agree -/

section Agree
variable {e : Env}

theorem parseRoles_length (e : Env) : e.parseRoles.length = e.arguments.length := by
  have hmarks := congrArg List.length (parseTakes_guarded.roles_marked e.arguments)
  rwa [List.length_map, List.length_map] at hmarks

/-- The loops agree exactly if they give every argument the same role. -/
theorem consistent_iff_roles : e.Consistent ↔ e.parseRoles = e.positionalRoles := by
  have hmarks : e.parseRoles.map (· = .marked) = e.positionalRoles.map (· = .marked) :=
    (parseTakes_guarded.roles_marked e.arguments).trans (positionalTakes_guarded.roles_marked e.arguments).symm
  have hone := exactlyOne_iff hmarks
  rw [parseRoles_length] at hone
  refine ⟨fun h => hone.mp h.1, fun h => ⟨hone.mpr h, ?_⟩⟩
  rw [positionalArgs, positionalLoop_eq, free_scan, h]
  rfl

theorem takes_agree_iff {arg next : List UInt8} : parseTakes arg next = positionalTakes arg next ↔
    (isOption arg = true → isOption next = false → (takesValue arg = true ↔ 61 ∉ arg)) := by
  rw [parseTakes_eq]
  cases harg : isOption arg <;> cases hnext : isOption next <;> simp [stores, positionalTakes, harg, hnext]
  rw [Bool.eq_iff_iff]
  simp

/-- After `parse` the two agree exactly if every option in front of an argument that is none takes it as its value
where it has no `=`, and only there. -/
theorem parse_consistent (e : Env) (argv : List (List UInt8)) : (e.parse argv).Consistent ↔
    (e.parse argv).arguments.IsChain fun arg next =>
      isOption arg = true → isOption next = false → (takesValue arg = true ↔ 61 ∉ arg) := by
  rw [consistent_iff_roles, parseRoles, positionalRoles, roles_eq_iff parseTakes_guarded positionalTakes_guarded]
  simp only [takes_agree_iff]

/-- `prog --verbose file` -/
def verboseFile : List (List UInt8) := [text "prog", text "--verbose", text "file"]

/-- The file is in no option and in no list. -/
theorem parse_verboseFile : ¬ (({} : Env).parse verboseFile).Consistent := by
  intro h
  have hroles := consistent_iff_roles.mp h
  exact absurd hroles (by decide)

end Agree

end Env
end TmmsServer

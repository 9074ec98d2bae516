import Mathlib.Data.List.Basic

/-! `getopt_long`: the options of a command line, each with its argument. -/
namespace Vban.Library

/-- A long option: its name, whether it requires an argument, and the character it stands for. -/
structure LongOption where
  name : List UInt8
  required : Bool
  val : UInt8
deriving DecidableEq

/-- What is looked for: the option string and the long options. -/
structure OptionTable where
  optstring : List UInt8
  options : List LongOption

/-- An option, or `'?'`, with its argument. -/
abbrev FoundOption := UInt8 × List UInt8

def unknownOption : FoundOption := (63, [])

namespace OptionTable

variable (table : OptionTable)

/-- Whether an option character takes an argument. `none` is no option. -/
def takesArgument (c : UInt8) : Option Bool :=
  if c = 58 ∨ c = 59 then none
  else match table.optstring.dropWhile (· ≠ c) with
    | [] => none
    | _ :: rest => some (rest.head? = some 58)

/-- The options of one argument that starts with a single `-`, and the one that still wants the next
argument. -/
def shortOptions : List UInt8 → List FoundOption × Option UInt8
  | [] => ([], none)
  | c :: rest =>
    match table.takesArgument c with
    | none => (unknownOption :: (shortOptions rest).1, (shortOptions rest).2)
    | some false => ((c, []) :: (shortOptions rest).1, (shortOptions rest).2)
    | some true => if rest = [] then ([], some c) else ([(c, rest)], none)

/-- A name may be shortened as long as all the options it can stand for are the same. -/
def findLong (name : List UInt8) : Option LongOption :=
  match table.options.find? (·.name = name) with
  | some o => some o
  | none =>
    match table.options.filter (name.isPrefixOf ·.name) with
    | [] => none
    | o :: os => if os.all fun p => p.required = o.required ∧ p.val = o.val then some o else none

/-- The option of an argument that starts with `--`. -/
def longOption (arg : List UInt8) : List FoundOption × Option UInt8 :=
  match table.findLong (arg.takeWhile (· ≠ 61)) with
  | none => ([unknownOption], none)
  | some o =>
    match arg.dropWhile (· ≠ 61) with
    | _ :: value => ([if o.required then (o.val, value) else unknownOption], none)
    | [] => if o.required then ([], some o.val) else ([(o.val, [])], none)

/-- The options of the arguments. Those that are no options are passed over, up to `--`. -/
def getoptLong : Option UInt8 → List (List UInt8) → List FoundOption
  | none, [] => []
  | some _, [] => [unknownOption]
  | some c, arg :: args => (c, arg) :: getoptLong none args
  | none, arg :: args =>
    match arg with
    | [45, 45] => []
    | 45 :: 45 :: name => (table.longOption name).1 ++ getoptLong (table.longOption name).2 args
    | 45 :: c :: rest =>
      (table.shortOptions (c :: rest)).1 ++ getoptLong (table.shortOptions (c :: rest)).2 args
    | _ => getoptLong none args

end OptionTable

variable {table : OptionTable} {c d : UInt8} {arg value : List UInt8} {args : List (List UInt8)}

/-- An argument stands right behind its option. -/
theorem getoptLong_attached (hc : c ≠ 45) (htakes : table.takesArgument c = some true)
    (hvalue : value ≠ []) : table.getoptLong none ((45 :: c :: value) :: args) =
      (c, value) :: table.getoptLong none args := by
  have hshort : table.shortOptions (c :: value) = ([(c, value)], none) := by
    rw [OptionTable.shortOptions, htakes]
    exact if_neg hvalue
  rw [OptionTable.getoptLong]
  · rw [hshort]
    rfl
  · simp [hc]
  · simp [hc]

/-- Without one, the next argument is taken, whatever it looks like. -/
theorem getoptLong_separate (hc : c ≠ 45) (htakes : table.takesArgument c = some true) :
    table.getoptLong none ([45, c] :: arg :: args) =
      (c, arg) :: table.getoptLong none args := by
  have hshort : table.shortOptions [c] = ([], some c) := by
    rw [OptionTable.shortOptions, htakes]
    exact if_pos rfl
  rw [OptionTable.getoptLong]
  · rw [hshort]
    rfl
  · simp [hc]
  · simp [hc]

/-- Options that all have their arguments behind them. -/
theorem getoptLong_options {opts : List FoundOption}
    (h : ∀ o ∈ opts, o.1 ≠ 45 ∧ table.takesArgument o.1 = some true ∧ o.2 ≠ []) :
    table.getoptLong none (opts.map fun o => 45 :: o.1 :: o.2) = opts := by
  induction opts with
  | nil => rfl
  | cons o opts ih =>
    obtain ⟨⟨hdash, htakes, hvalue⟩, hopts⟩ := List.forall_mem_cons.mp h
    rw [List.map_cons, getoptLong_attached hdash htakes hvalue, ih hopts]

theorem notMem_shortOptions (harg : d ∉ arg) : ∀ o ∈ (table.shortOptions arg).1, d ∉ o.2 := by
  induction arg with
  | nil => simp [OptionTable.shortOptions]
  | cons c rest ih =>
    have hrest : d ∉ rest := fun h => harg (List.mem_cons_of_mem c h)
    intro o ho
    rw [OptionTable.shortOptions] at ho
    cases htakes : table.takesArgument c with
    | none =>
      rw [htakes] at ho
      rcases List.mem_cons.mp ho with rfl | ho
      · simp [unknownOption]
      · exact ih hrest o ho
    | some required =>
      rw [htakes] at ho
      cases required with
      | false =>
        rcases List.mem_cons.mp ho with rfl | ho
        · simp
        · exact ih hrest o ho
      | true =>
        by_cases hnil : rest = []
        · simp [hnil] at ho
        · obtain rfl : o = (c, rest) := by simpa [hnil] using ho
          exact hrest

theorem notMem_longOption (harg : d ∉ arg) : ∀ o ∈ (table.longOption arg).1, d ∉ o.2 := by
  intro o ho
  rw [OptionTable.longOption] at ho
  cases hfind : table.findLong (arg.takeWhile (· ≠ 61)) with
  | none =>
    rw [hfind] at ho
    rw [List.mem_singleton.mp ho]
    simp [unknownOption]
  | some l =>
    rw [hfind] at ho
    cases hvalue : arg.dropWhile (· ≠ 61) with
    | nil =>
      simp only [hvalue] at ho
      split_ifs at ho
      · cases ho
      · rw [List.mem_singleton.mp ho]
        simp
    | cons c value =>
      simp only [hvalue] at ho
      rw [List.mem_singleton.mp ho]
      have hmem : d ∉ value := by
        intro h
        apply harg
        apply (List.dropWhile_sublist (· ≠ 61)).mem
        rw [hvalue]
        exact List.mem_cons_of_mem c h
      split_ifs
      · exact hmem
      · simp [unknownOption]

/-- The arguments of the options are made of what stands in the command line. -/
theorem notMem_getoptLong (pending : Option UInt8) (hargs : ∀ arg ∈ args, d ∉ arg) :
    ∀ o ∈ table.getoptLong pending args, d ∉ o.2 := by
  induction args generalizing pending with
  | nil =>
    cases pending with
    | none => simp [OptionTable.getoptLong]
    | some c => simp [OptionTable.getoptLong, unknownOption]
  | cons arg args ih =>
    have harg := hargs arg List.mem_cons_self
    have ih := fun pending => ih pending fun a ha => hargs a (List.mem_cons_of_mem arg ha)
    intro o ho
    cases pending with
    | some c =>
      rw [OptionTable.getoptLong] at ho
      rcases List.mem_cons.mp ho with rfl | ho
      · exact harg
      · exact ih none o ho
    | none =>
      rw [OptionTable.getoptLong.eq_def] at ho
      simp only at ho
      split at ho
      · cases ho
      · rename_i name _
        rcases List.mem_append.mp ho with ho | ho
        · exact notMem_longOption (fun h => harg (by simp [h])) o ho
        · exact ih _ o ho
      · rename_i c rest _ _
        rcases List.mem_append.mp ho with ho | ho
        · exact notMem_shortOptions (fun h => harg (List.mem_cons_of_mem 45 h)) o ho
        · exact ih _ o ho
      · exact ih none o ho

end Vban.Library

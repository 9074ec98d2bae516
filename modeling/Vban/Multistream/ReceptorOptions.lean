import Vban.Multistream.Server

/-! `get_receptor_options`, and what a client's receptor makes of the command that starts it. -/
namespace Vban.Multistream

open Library
open Discovery (chars multistream)

/-- The length of `cmd`. -/
def cmdlenMax : Nat := 600

def receptorOptionTable : OptionTable where
  optstring := chars "m:i:p:s:r:q:c:n:d:a:f:e:j:b:h"
  options :=
    [⟨chars "multistream", true, 109⟩, ⟨chars "ipaddr", true, 105⟩, ⟨chars "port", true, 112⟩,
      ⟨chars "streamname", true, 115⟩, ⟨chars "samplerate", true, 114⟩,
      ⟨chars "bufsize", true, 113⟩, ⟨chars "nbchannels", true, 99⟩,
      ⟨chars "redundancy", true, 110⟩, ⟨chars "device", true, 100⟩,
      ⟨chars "autoconnect", true, 97⟩, ⟨chars "correction", true, 101⟩,
      ⟨chars "jackservname", true, 106⟩, ⟨chars "bidirection", true, 98⟩,
      ⟨chars "help", false, 104⟩]

/-- The fields of `vban_stream_context_t` that `get_receptor_options` sets. -/
structure ReceptorContext where
  rxport : UInt16
  iprx : UInt32
  pipename : List UInt8
  rxStreamname : StreamName
  samplerate : Int
  nframes : UInt16
  nboutputs : UInt16
  nbinputs : UInt16
  redundancy : UInt8
  flags : UInt16
  jackServerName : Option (List UInt8)
deriving DecidableEq

/-- What `main` sets before it reads the options. -/
def receptorDefaults : ReceptorContext where
  rxport := 0
  iprx := 0
  pipename := List.replicate 32 0
  rxStreamname := .strncpy []
  samplerate := 48000
  nframes := 0
  nboutputs := 0
  nbinputs := 0
  redundancy := 0
  flags := correctionOn
  jackServerName := none

/-- A flag set or cleared. -/
def switchFlag (flags flag : UInt16) (on : Bool) : UInt16 :=
  if on then flags ||| flag else flags &&& ~~~flag

/-- The cases of the switch. `none` ends the program. -/
def receptorOption (c : ReceptorContext) : FoundOption → Option ReceptorContext
  | (109, optarg) => some { c with flags := switchFlag c.flags multistream (isYes optarg) }
  | (105, optarg) =>
    if c.rxport = 0 then
      some { c with
        pipename := (optarg.take 32 ++ List.replicate 32 0).take 32
        iprx := 0 }
    else if optarg.length > 15 then none
    else some { c with iprx := inetAddr optarg }
  | (112, optarg) => some { c with rxport := .ofInt (atoi optarg) }
  | (115, optarg) => some { c with rxStreamname := .strncpy optarg }
  | (114, optarg) => some { c with samplerate := atoi optarg }
  | (113, optarg) => some { c with nframes := .ofInt (atoi optarg) }
  | (99, optarg) => some { c with nboutputs := .ofInt (atoi optarg) }
  | (110, optarg) => some { c with redundancy := .ofInt (atoi optarg) }
  | (100, optarg) =>
    some { c with
      flags := if isYes optarg then c.flags &&& ~~~autoconnect ||| deviceMode
        else c.flags &&& ~~~deviceMode }
  | (97, optarg) =>
    if c.flags &&& deviceMode ≠ deviceMode ∧ optarg.headD 0 = 121 then
      some { c with flags := c.flags ||| autoconnect }
    else some c
  | (101, optarg) => some { c with flags := switchFlag c.flags correctionOn (isYes optarg) }
  | (106, optarg) => some { c with jackServerName := some optarg }
  | (98, optarg) =>
    some { c with
      flags := c.flags ||| duplex
      nbinputs := if optarg.headD 0 = 0 then .ofInt (atoi optarg) else c.nbinputs }
  | (104, _) => none
  | _ => some c

/-- From the arguments behind the program's name. Without any option the help is shown. -/
def getReceptorOptions (args : List (List UInt8)) : Option ReceptorContext :=
  let found := receptorOptionTable.getoptLong none args
  if found.isEmpty then none else found.foldlM receptorOption receptorDefaults

/-- The command of the children. `none` is a write behind the end of `cmd`. -/
def childCommand (argv0 : List UInt8) (server : ReceptorContext) : Option (List UInt8) :=
  let command := cmd argv0 server.nframes.toNat server.redundancy.toNat server.flags
  if command.length < cmdlenMax then some command else none

/-- The child that the command starts has the settings of the server, and reads its pipe. -/
def ChildAgrees (argv0 : List UInt8) (server : ReceptorContext) : Prop :=
  ∃ command args child, childCommand argv0 server = some command ∧
    shellWords command = some (argv0 :: args) ∧ getReceptorOptions args = some child ∧
    child.nframes = server.nframes ∧ child.redundancy = server.redundancy ∧
    child.flags &&& deviceMode = server.flags &&& deviceMode ∧
    child.flags &&& autoconnect = server.flags &&& autoconnect ∧
    child.flags &&& correctionOn = server.flags &&& correctionOn ∧
    child.flags &&& multistream = 0 ∧ child.rxport = 0 ∧
    cString child.pipename = chars "stdin"

variable {argv0 : List UInt8} {server c c' : ReceptorContext} {o : FoundOption}
  {nframes redundancy : Nat} {flags a b : UInt16}

theorem or_and_of_disjoint (hab : a &&& b = 0) : (flags ||| a) &&& b = flags &&& b := by
  apply UInt16.toBitVec_inj.mp
  ext i hi
  have hbit := congrArg (fun x : UInt16 => x.toBitVec[i]) hab
  simp only [UInt16.toBitVec_and, UInt16.toBitVec_or, BitVec.getElem_and,
    BitVec.getElem_or] at hbit ⊢
  cases ha : a.toBitVec[i] with
  | false => simp
  | true =>
    rw [ha, Bool.true_and] at hbit
    simp [hbit]

theorem and_not_and_of_disjoint (hab : a &&& b = 0) : flags &&& ~~~a &&& b = flags &&& b := by
  apply UInt16.toBitVec_inj.mp
  ext i hi
  have hbit := congrArg (fun x : UInt16 => x.toBitVec[i]) hab
  simp only [UInt16.toBitVec_and, UInt16.toBitVec_not, BitVec.getElem_and,
    BitVec.getElem_not] at hbit ⊢
  cases ha : a.toBitVec[i] with
  | false => simp
  | true =>
    rw [ha, Bool.true_and] at hbit
    simp [hbit]

/-- Other bits do not notice a switch. -/
theorem switchFlag_and (hab : a &&& b = 0) (on : Bool) :
    switchFlag flags a on &&& b = flags &&& b := by
  cases on with
  | false => exact and_not_and_of_disjoint hab
  | true => exact or_and_of_disjoint hab

/-- The flags that exclude each other. -/
def Exclusive (flags : UInt16) : Prop := flags &&& autoconnect = 0 ∨ flags &&& deviceMode = 0

theorem exclusive_congr (ha : a &&& autoconnect = b &&& autoconnect)
    (hd : a &&& deviceMode = b &&& deviceMode) (h : Exclusive b) : Exclusive a := by
  rwa [Exclusive, ha, hd]

/-- `-d` clears `AUTOCONNECT`, and `-a` does nothing in device mode. -/
theorem exclusive_receptorOption (h : Exclusive c.flags) (hc : receptorOption c o = some c') :
    Exclusive c'.flags := by
  rw [receptorOption.eq_def] at hc
  split at hc
  case h_2 =>
    split_ifs at hc
    all_goals
      cases hc
      exact h
  case h_9 optarg =>
    cases hc
    by_cases hyes : isYes optarg = true
    · left
      simp only [if_pos hyes]
      rw [or_and_of_disjoint (by decide), UInt16.and_assoc, UInt16.not_and_self, UInt16.and_zero]
    · right
      simp only [if_neg hyes]
      rw [UInt16.and_assoc, UInt16.not_and_self, UInt16.and_zero]
  case h_10 =>
    split_ifs at hc with hauto
    · cases hc
      right
      rw [or_and_of_disjoint (by decide)]
      exact (and_bit_cases c.flags (i := 9) (by decide)).resolve_right hauto.1
    · cases hc
      exact h
  case h_14 => cases hc
  case h_1 =>
    cases hc
    exact exclusive_congr (switchFlag_and (by decide) _) (switchFlag_and (by decide) _) h
  case h_11 =>
    cases hc
    exact exclusive_congr (switchFlag_and (by decide) _) (switchFlag_and (by decide) _) h
  case h_13 =>
    cases hc
    exact exclusive_congr (or_and_of_disjoint (by decide)) (or_and_of_disjoint (by decide)) h
  all_goals
    cases hc
    exact h

theorem exclusive_foldlM {found : List FoundOption} (h : Exclusive c.flags)
    (hc : found.foldlM receptorOption c = some c') : Exclusive c'.flags := by
  induction found generalizing c with
  | nil =>
    obtain rfl := Option.some.inj hc
    exact h
  | cons o found ih =>
    rw [List.foldlM_cons] at hc
    obtain ⟨t, ht, hrest⟩ := Option.bind_eq_some_iff.mp hc
    exact ih (exclusive_receptorOption h ht) hrest

theorem exclusive_getReceptorOptions {args : List (List UInt8)}
    (h : getReceptorOptions args = some server) : Exclusive server.flags := by
  rw [getReceptorOptions] at h
  split_ifs at h
  exact exclusive_foldlM (c := receptorDefaults) (Or.inl (by decide)) h

/-- The options in the command of a child. -/
def childOptions (nframes redundancy : Nat) (flags : UInt16) : List FoundOption :=
  [(109, chars "0"), (112, chars "0"), (105, chars "stdin"), (113, decimal nframes),
    (110, decimal redundancy)] ++
  (if flags &&& deviceMode = deviceMode then [(100, chars "y")] else []) ++
  (if flags &&& autoconnect = autoconnect then [(97, chars "y")] else []) ++
  (if flags &&& correctionOn = correctionOn then [(101, chars "y")] else [])

def childArguments (nframes redundancy : Nat) (flags : UInt16) : List (List UInt8) :=
  (childOptions nframes redundancy flags).map fun o => 45 :: o.1 :: o.2

/-- The command, as the program's name and its arguments with a blank before each. -/
theorem cmd_eq : cmd argv0 nframes redundancy flags =
    argv0 ++ (childArguments nframes redundancy flags).flatMap (32 :: ·) := by
  have hfixed : chars " -m0 -p0 -istdin -q" = (32 :: 45 :: 109 :: chars "0") ++
      (32 :: 45 :: 112 :: chars "0") ++ (32 :: 45 :: 105 :: chars "stdin") ++ [32, 45, 113] := rfl
  have hn : chars " -n" = [32, 45, 110] := rfl
  have hd : chars " -dy" = 32 :: 45 :: 100 :: chars "y" := rfl
  have ha : chars " -ay" = 32 :: 45 :: 97 :: chars "y" := rfl
  have he : chars " -ey" = 32 :: 45 :: 101 :: chars "y" := rfl
  rw [cmd, childArguments, childOptions, hfixed, hn, hd, ha, he]
  simp only [List.map_append, List.flatMap_append, List.map_cons, List.flatMap_cons,
    List.append_assoc, List.cons_append, List.nil_append]
  split_ifs <;> simp

/-- The shell and the receptor take the option as it is written. -/
def TakenAsWritten (o : FoundOption) : Prop :=
  (o.1 ≠ 45 ∧ receptorOptionTable.takesArgument o.1 = some true ∧ o.2 ≠ []) ∧
    IsPlainWord (45 :: o.1 :: o.2)

theorem takenAsWritten_childOptions :
    ∀ o ∈ childOptions nframes redundancy flags, TakenAsWritten o := by
  have hfixed : ∀ o : FoundOption,
      ((o.1 ≠ 45 ∧ receptorOptionTable.takesArgument o.1 = some true ∧ o.2 ≠ []) ∧
        (45 :: o.1 :: o.2).all (fun c => isPlain c) = true) → TakenAsWritten o :=
    fun o h => ⟨h.1, by simp, by simpa using h.2⟩
  have hm : TakenAsWritten (109, chars "0") := hfixed _ (by decide)
  have hp : TakenAsWritten (112, chars "0") := hfixed _ (by decide)
  have hi : TakenAsWritten (105, chars "stdin") := hfixed _ (by decide)
  have hd : TakenAsWritten (100, chars "y") := hfixed _ (by decide)
  have ha : TakenAsWritten (97, chars "y") := hfixed _ (by decide)
  have he : TakenAsWritten (101, chars "y") := hfixed _ (by decide)
  have hnumber : ∀ (c : UInt8) (n : Nat),
      (c ≠ 45 ∧ receptorOptionTable.takesArgument c = some true) ∧ isPlain c = true →
      TakenAsWritten (c, decimal n) := by
    intro c n hletter
    refine ⟨⟨hletter.1.1, hletter.1.2, decimal_ne_nil⟩, by simp, ?_⟩
    exact List.forall_mem_cons.mpr ⟨rfl, List.forall_mem_cons.mpr ⟨hletter.2, isPlain_decimal n⟩⟩
  simp only [childOptions, List.forall_mem_append, List.forall_mem_cons]
  have hnil : ∀ o ∈ ([] : List FoundOption), TakenAsWritten o := by simp
  refine ⟨⟨⟨⟨hm, hp, hi, hnumber 113 nframes (by decide), hnumber 110 redundancy (by decide),
    hnil⟩, ?_⟩, ?_⟩, ?_⟩
  · split_ifs
    · simpa using hd
    · exact hnil
  · split_ifs
    · simpa using ha
    · exact hnil
  · split_ifs
    · simpa using he
    · exact hnil

/-- The words of the command. -/
theorem shellWords_cmd (hargv0 : IsPlainWord argv0) :
    shellWords (cmd argv0 nframes redundancy flags) = if namesCommand argv0 then
      some (argv0 :: childArguments nframes redundancy flags) else none := by
  rw [cmd_eq]
  apply shellWords_words
  apply List.forall_mem_cons.mpr ⟨hargv0, ?_⟩
  intro word hword
  obtain ⟨o, ho, rfl⟩ := List.mem_map.mp hword
  exact (takenAsWritten_childOptions o ho).2

/-- A command whose first word is the program's name is one that the shell does not change. -/
theorem isPlainWord_of_shellWords {args : List (List UInt8)}
    (h : shellWords (cmd argv0 nframes redundancy flags) = some (argv0 :: args)) :
    IsPlainWord argv0 := by
  have hname : singleQuote ∉ argv0 :=
    singleQuote_notMem (by simp [LexState.text]) (lexWords_of_shellWords h) argv0
      List.mem_cons_self
  have hcommand : singleQuote ∉ cmd argv0 nframes redundancy flags := by
    rw [cmd_eq]
    intro hmem
    rcases List.mem_append.mp hmem with hmem | hmem
    · exact hname hmem
    · obtain ⟨word, hword, hmem⟩ := List.mem_flatMap.mp hmem
      obtain ⟨o, ho, rfl⟩ := List.mem_map.mp hword
      rcases List.mem_cons.mp hmem with hblank | hmem
      · exact absurd hblank (by decide)
      · have hplain := (takenAsWritten_childOptions o ho).2.2 _ hmem
        exact absurd hplain (by decide)
  exact isPlainWord_of_lexWords hcommand (Or.inl rfl) (lexWords_of_shellWords h) argv0
    List.mem_cons_self

/-- A receptor that reads its pipe. -/
def childWith (nframes : UInt16) (redundancy : UInt8) (flags : UInt16) : ReceptorContext :=
  { receptorDefaults with
    pipename := chars "stdin" ++ List.replicate 27 0
    nframes := nframes
    redundancy := redundancy
    flags := flags }

/-- The flags of the child of a server with these flags. -/
def childFlags (flags : UInt16) : UInt16 :=
  correctionOn ||| if flags &&& deviceMode = deviceMode then deviceMode
    else if flags &&& autoconnect = autoconnect then autoconnect else 0

theorem ofInt_decimal16 (n : UInt16) : UInt16.ofInt (atoi (decimal n.toNat)) = n := by
  have hn := n.toNat_lt
  rw [atoi_decimal, UInt16.ofInt]
  apply UInt16.toNat_inj.mp
  rw [UInt16.toNat_ofNat']
  omega

theorem ofInt_decimal8 (n : UInt8) : UInt8.ofInt (atoi (decimal n.toNat)) = n := by
  have hn := n.toNat_lt
  rw [atoi_decimal, UInt8.ofInt]
  apply UInt8.toNat_inj.mp
  rw [UInt8.toNat_ofNat']
  omega

/-- The options that every child gets. -/
theorem foldlM_fixedOptions (nframes : UInt16) (redundancy : UInt8) :
    [(109, chars "0"), (112, chars "0"), (105, chars "stdin"), (113, decimal nframes.toNat),
        (110, decimal redundancy.toNat)].foldlM receptorOption receptorDefaults =
      some (childWith nframes redundancy correctionOn) := by
  have hread : [(109, chars "0"), (112, chars "0"), (105, chars "stdin"),
      (113, decimal nframes.toNat), (110, decimal redundancy.toNat)].foldlM receptorOption
        receptorDefaults =
      some (childWith (.ofInt (atoi (decimal nframes.toNat)))
        (.ofInt (atoi (decimal redundancy.toNat))) correctionOn) := rfl
  rw [hread, ofInt_decimal16, ofInt_decimal8]

theorem receptorOption_d (nframes : UInt16) (redundancy : UInt8) (flags : UInt16) :
    receptorOption (childWith nframes redundancy flags) (100, chars "y") =
      some (childWith nframes redundancy (flags &&& ~~~autoconnect ||| deviceMode)) := rfl

theorem receptorOption_a (nframes : UInt16) (redundancy : UInt8)
    (hflags : flags &&& deviceMode ≠ deviceMode) :
    receptorOption (childWith nframes redundancy flags) (97, chars "y") =
      some (childWith nframes redundancy (flags ||| autoconnect)) :=
  if_pos ⟨hflags, rfl⟩

theorem receptorOption_e (nframes : UInt16) (redundancy : UInt8) (flags : UInt16) :
    receptorOption (childWith nframes redundancy flags) (101, chars "y") =
      some (childWith nframes redundancy (flags ||| correctionOn)) := rfl

/-- `-ay` is given only without `-dy`, and `-ey` sets what is set already. -/
theorem foldlM_childOptions (nframes : UInt16) (redundancy : UInt8) (hexclusive : Exclusive flags) :
    (childOptions nframes.toNat redundancy.toNat flags).foldlM receptorOption receptorDefaults =
      some (childWith nframes redundancy (childFlags flags)) := by
  have hboth : ¬(flags &&& deviceMode = deviceMode ∧ flags &&& autoconnect = autoconnect) := by
    rintro ⟨hd, ha⟩
    rw [Exclusive, hd, ha] at hexclusive
    revert hexclusive
    decide
  have hwith : ∀ {f g : UInt16}, f = g →
      some (childWith nframes redundancy f) = some (childWith nframes redundancy g) := by
    rintro f g rfl
    rfl
  have hstart : correctionOn &&& deviceMode ≠ deviceMode := by decide
  rw [childOptions, List.foldlM_append, List.foldlM_append, List.foldlM_append,
    foldlM_fixedOptions]
  by_cases hd : flags &&& deviceMode = deviceMode
  · have ha : ¬flags &&& autoconnect = autoconnect := fun ha => hboth ⟨hd, ha⟩
    rw [childFlags, if_pos hd, if_pos hd, if_neg ha]
    split_ifs
    all_goals
      simp only [List.foldlM_cons, List.foldlM_nil, Option.bind_eq_bind, Option.bind_some,
        Option.pure_def, receptorOption_d, receptorOption_e]
      exact hwith (by decide)
  · by_cases ha : flags &&& autoconnect = autoconnect
    · rw [childFlags, if_neg hd, if_neg hd, if_pos ha, if_pos ha]
      split_ifs
      · simp only [List.foldlM_cons, List.foldlM_nil, Option.bind_eq_bind, Option.bind_some,
          Option.pure_def, receptorOption_a _ _ hstart, receptorOption_e]
        exact hwith (by decide)
      · simp only [List.foldlM_cons, List.foldlM_nil, Option.bind_eq_bind, Option.bind_some,
          Option.pure_def, receptorOption_a _ _ hstart]
    · rw [childFlags, if_neg hd, if_neg hd, if_neg ha, if_neg ha]
      split_ifs
      all_goals
        simp only [List.foldlM_cons, List.foldlM_nil, Option.bind_eq_bind, Option.bind_some,
          Option.pure_def, receptorOption_e]
        exact hwith (by decide)

theorem getReceptorOptions_childArguments (nframes : UInt16) (redundancy : UInt8)
    (hexclusive : Exclusive flags) :
    getReceptorOptions (childArguments nframes.toNat redundancy.toNat flags) =
      some (childWith nframes redundancy (childFlags flags)) := by
  rw [getReceptorOptions, childArguments,
    getoptLong_options fun o ho => (takenAsWritten_childOptions o ho).1,
    foldlM_childOptions nframes redundancy hexclusive]
  rfl

theorem childFlags_and_deviceMode (flags : UInt16) :
    childFlags flags &&& deviceMode = flags &&& deviceMode := by
  rw [childFlags]
  split_ifs with hd ha
  · rw [hd]
    decide
  all_goals
    have hzero : flags &&& deviceMode = 0 :=
      (and_bit_cases flags (i := 9) (by decide)).resolve_right hd
    rw [hzero]
    decide

theorem childFlags_and_autoconnect (hexclusive : Exclusive flags) :
    childFlags flags &&& autoconnect = flags &&& autoconnect := by
  rw [childFlags]
  split_ifs with hd ha
  · have hzero : flags &&& autoconnect = 0 := by
      rw [Exclusive, hd] at hexclusive
      exact hexclusive.resolve_right (by decide)
    rw [hzero]
    decide
  · rw [ha]
    decide
  · have hzero : flags &&& autoconnect = 0 :=
      (and_bit_cases flags (i := 10) (by decide)).resolve_right ha
    rw [hzero]
    decide

/-- A child always corrects, and never serves. -/
theorem childFlags_fixed (flags : UInt16) :
    childFlags flags &&& correctionOn = correctionOn ∧ childFlags flags &&& multistream = 0 := by
  rw [childFlags]
  split_ifs <;> decide

/-- The command can be built, and the shell finds the program under its name. -/
def Startable (argv0 : List UInt8) (server : ReceptorContext) : Prop :=
  (IsPlainWord argv0 ∧ namesCommand argv0 = true) ∧
    (cmd argv0 server.nframes.toNat server.redundancy.toNat server.flags).length < cmdlenMax

theorem startable_of_words {command : List UInt8} {args : List (List UInt8)}
    (hcommand : childCommand argv0 server = some command)
    (hwords : shellWords command = some (argv0 :: args)) :
    Startable argv0 server ∧
      args = childArguments server.nframes.toNat server.redundancy.toNat server.flags := by
  rw [childCommand] at hcommand
  split_ifs at hcommand with hfits
  obtain rfl := Option.some.inj hcommand
  have hplain := isPlainWord_of_shellWords hwords
  rw [shellWords_cmd hplain] at hwords
  split_ifs at hwords with hnames
  exact ⟨⟨⟨hplain, hnames⟩, hfits⟩, (List.cons.inj (Option.some.inj hwords)).2.symm⟩

theorem of_childAgrees (hexclusive : Exclusive server.flags) (h : ChildAgrees argv0 server) :
    Startable argv0 server ∧ server.flags &&& correctionOn = correctionOn := by
  obtain ⟨command, args, child, hcommand, hwords, hchild, -, -, -, -, hcorrection, -⟩ := h
  obtain ⟨hstart, rfl⟩ := startable_of_words hcommand hwords
  rw [getReceptorOptions_childArguments _ _ hexclusive] at hchild
  obtain rfl := Option.some.inj hchild
  exact ⟨hstart, hcorrection.symm.trans (childFlags_fixed server.flags).1⟩

theorem childAgrees_of (hexclusive : Exclusive server.flags) (hstart : Startable argv0 server)
    (hcorrection : server.flags &&& correctionOn = correctionOn) : ChildAgrees argv0 server := by
  obtain ⟨hcorrects, hserves⟩ := childFlags_fixed server.flags
  have hpipe : cString (chars "stdin" ++ List.replicate 27 0) = chars "stdin" := by decide
  have hwords : shellWords
      (cmd argv0 server.nframes.toNat server.redundancy.toNat server.flags) = _ :=
    shellWords_cmd hstart.1.1
  rw [if_pos hstart.1.2] at hwords
  exact ⟨_, _, _, if_pos hstart.2, hwords,
    getReceptorOptions_childArguments _ _ hexclusive, rfl, rfl,
    childFlags_and_deviceMode _, childFlags_and_autoconnect hexclusive,
    hcorrects.trans hcorrection.symm, hserves, rfl, hpipe⟩

/-- A child gets the settings of its server iff it can be started and the server corrects. -/
theorem childAgrees_iff {serverArgs : List (List UInt8)}
    (hserver : getReceptorOptions serverArgs = some server) (argv0 : List UInt8) :
    ChildAgrees argv0 server ↔
      Startable argv0 server ∧ server.flags &&& correctionOn = correctionOn := by
  have hexclusive := exclusive_getReceptorOptions hserver
  constructor
  · exact of_childAgrees hexclusive
  · rintro ⟨hstart, hcorrection⟩
    exact childAgrees_of hexclusive hstart hcorrection

/-- The multistream loop starts with this command, and launches it for every client. -/
theorem start_cmd (argv0 : List UInt8) (vbanOutputFormat : UInt8) {stream : VbanRxContext Unit}
    (hnframes : stream.nframes = server.nframes.toNat) (hflags : stream.flags = server.flags)
    (hfits : Startable argv0 server) (cAddr : UInt32 × UInt16) (ipIn : UInt32) (portIn : UInt16) :
    childCommand argv0 server = some (Server.start argv0 server.redundancy.toNat vbanOutputFormat
      stream cAddr ipIn portIn).cmd := by
  rw [childCommand, if_pos hfits.2, Server.start, hnframes, hflags]

/-- A server on port 6980 for periods of 128 frames. -/
def servingWith (flags : UInt16) : ReceptorContext :=
  { receptorDefaults with
    rxport := 6980
    nframes := 128
    redundancy := 2
    nboutputs := 4
    flags := flags }

theorem child_agrees_in_device_mode :
    ChildAgrees (chars "./vban_receptor_jack")
      (servingWith (correctionOn ||| multistream ||| deviceMode)) := by
  have hserver : getReceptorOptions [chars "-m1", chars "-p6980", chars "-q128", chars "-n2",
      chars "-c4", chars "-dy"] =
        some (servingWith (correctionOn ||| multistream ||| deviceMode)) := by decide +kernel
  apply (childAgrees_iff hserver _).mpr
  exact ⟨⟨⟨⟨by decide, forall_mem_of_all (by decide)⟩, by decide⟩, by decide⟩, by decide⟩

/-- `-e0` switches the server's correction off, and the command does not say so. -/
theorem correction_not_passed_on :
    getReceptorOptions [chars "-m1", chars "-p6980", chars "-q128", chars "-n2", chars "-c4",
      chars "-e0"] = some (servingWith multistream) ∧
    shellWords (cmd (chars "vban_receptor_jack") 128 2 multistream) =
      some [chars "vban_receptor_jack", chars "-m0", chars "-p0", chars "-istdin", chars "-q128",
        chars "-n2"] ∧
    getReceptorOptions [chars "-m0", chars "-p0", chars "-istdin", chars "-q128", chars "-n2"] =
      some (childWith 128 2 correctionOn) ∧
    ¬ChildAgrees (chars "vban_receptor_jack") (servingWith multistream) := by
  refine ⟨by decide +kernel, by decide +kernel, by decide +kernel, ?_⟩
  intro h
  have hcorrection := (of_childAgrees (Or.inl (by decide)) h).2
  revert hcorrection
  decide

end Vban.Multistream

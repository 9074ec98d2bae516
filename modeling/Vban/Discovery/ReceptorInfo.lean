import Vban.Discovery.KeyValue
import Vban.Library.Decimal
import Vban.Receive.Context

/-! The info that a receptor answers, and the two readers of it. -/
namespace Vban.Discovery

open Library

def multistream : UInt16 := 0x0100

/-- `getVal` of the ALSA utility. -/
def getVal (input key : List UInt8) : List UInt8 :=
  match firstPlace (fun _ rest => (key ++ [equalSign]).isPrefixOf rest) none input with
  | none => []
  | some rest =>
    match rest.drop (key.length + 1) with
    | [] => []
    | c :: rest =>
      if c = 34 then if 34 ∈ rest then rest.takeWhile (· ≠ 34) else []
      else (c :: rest).takeWhile fun d => d ∉ chars " \t\r\n;"

variable {R : Type}

/-- The key of the name: `servername` in multistream mode. -/
def nameKey (c : VbanRxContext R) : List UInt8 :=
  if c.flags &&& multistream ≠ 0 then chars "servername" else chars "streamnamerx"

/-- `%s` of `rx_streamname`: the name need not be terminated. -/
def printedName (c : VbanRxContext R) : List UInt8 :=
  cString (c.rxStreamname.bytes ++ c.txStreamname.bytes ++ c.servername)

/-- The text of `info.data`. -/
def infoText (vbanOutputFormat : UInt8) (c : VbanRxContext R) : List UInt8 :=
  (if c.flags &&& multistream ≠ 0 then chars "servername=" ++ printedName c ++ chars " "
    else chars "streamnamerx=" ++ printedName c ++
      chars " nbchannels=" ++ decimal c.nboutputs ++ chars " ") ++
  (chars "samplerate=" ++ decimalInt c.samplerate ++
    chars " format=" ++ decimal vbanOutputFormat.toNat ++
    chars " flags=" ++ decimal c.flags.toNat)

def infoHeader : VBanHeader where
  vban := vbanHeaderFourc
  formatSR := vbanProtocolTxt
  formatNbs := 0
  formatNbc := 0
  formatBit := 0
  streamname := .strncpy (chars "INFO")
  nuFrame := 0

/-- The packet `info`. -/
def vbanFillReceptorInfo (vbanOutputFormat : UInt8) (c : VbanRxContext R) : VBanPacket :=
  VBanPacket.zero.store 0 vbanProtocolMaxSize VBanPacket.whole_le
    (infoHeader.toBytes ++ infoText vbanOutputFormat c)

/-- The option `-s`. -/
def streamnameOption (optarg : List UInt8) (c : VbanRxContext R) : VbanRxContext R :=
  { c with rxStreamname := .strncpy optarg }

variable {c : VbanRxContext R} {vbanOutputFormat : UInt8} {name res : List UInt8} {resSize : Nat}

/-- Behind the name the text goes on with a space. -/
theorem infoText_eq (vbanOutputFormat : UInt8) (c : VbanRxContext R) :
    ∃ tail, infoText vbanOutputFormat c =
      nameKey c ++ equalSign :: (printedName c ++ 32 :: tail) := by
  rw [infoText, nameKey]
  split_ifs with hmulti
  · refine ⟨chars "samplerate=" ++ decimalInt c.samplerate ++ chars " format=" ++
      decimal vbanOutputFormat.toNat ++ chars " flags=" ++ decimal c.flags.toNat, ?_⟩
    rw [show chars "servername=" = chars "servername" ++ [equalSign] from rfl,
      show chars " " = [32] from rfl]
    simp
  · refine ⟨chars "nbchannels=" ++ decimal c.nboutputs ++ chars " " ++ (chars "samplerate=" ++
      decimalInt c.samplerate ++ chars " format=" ++ decimal vbanOutputFormat.toNat ++
      chars " flags=" ++ decimal c.flags.toNat), ?_⟩
    rw [show chars "streamnamerx=" = chars "streamnamerx" ++ [equalSign] from rfl,
      show chars " nbchannels=" = 32 :: chars "nbchannels=" from rfl]
    simp

theorem zero_notMem_infoText (vbanOutputFormat : UInt8) (c : VbanRxContext R) :
    0 ∉ infoText vbanOutputFormat c := by
  have hprinted : 0 ∉ printedName c := fun h => ne_zero_of_mem_cString _ 0 h rfl
  have hdecimal : ∀ n, 0 ∉ decimal n := fun _ => notMem_decimal rfl
  have hrate : 0 ∉ decimalInt c.samplerate := notMem_decimalInt rfl (by decide) _
  have hchars : ∀ s ∈ ["servername=", " ", "streamnamerx=", " nbchannels=", "samplerate=",
      " format=", " flags="], 0 ∉ chars s := by
    decide
  simp only [List.forall_mem_cons] at hchars
  rw [infoText]
  split_ifs
  · simp only [List.mem_append, hprinted, hdecimal, hrate, hchars, or_self, not_false_eq_true]
  · simp only [List.mem_append, hprinted, hdecimal, hrate, hchars, or_self, not_false_eq_true]

/-- `tx_streamname` stays empty in a receptor, so that the name ends there at the latest. -/
theorem length_printedName_le (htx : c.txStreamname.Empty) :
    (printedName c).length ≤ vbanStreamNameSize := by
  obtain ⟨tail, htail⟩ := List.head?_eq_some_iff.mp htx
  rw [printedName, htail, List.append_assoc, List.cons_append, ← c.rxStreamname.length_eq]
  exact length_cString_append_zero_le _ _

/-- The text fits into the data. -/
theorem length_infoText_lt (vbanOutputFormat : UInt8) (htx : c.txStreamname.Empty)
    (hnboutputs : c.nboutputs < 2 ^ 16) (hsamplerate : c.samplerate.natAbs ≤ 2 ^ 31) :
    (infoText vbanOutputFormat c).length < vbanDataMaxSize := by
  have hprinted := length_printedName_le htx
  have hdecimal : ∀ n, n < 10 ^ 10 → (decimal n).length ≤ 10 := by
    intro n hn
    exact length_decimal_le (by decide) hn
  have hnb := hdecimal c.nboutputs (by omega)
  have hformat := hdecimal vbanOutputFormat.toNat (by have := vbanOutputFormat.toNat_lt; omega)
  have hflags := hdecimal c.flags.toNat (by have := c.flags.toNat_lt; omega)
  have hrate : (decimalInt c.samplerate).length ≤ 11 := by
    have habs := hdecimal c.samplerate.natAbs (by omega)
    rw [decimalInt]
    split_ifs
    · exact Nat.succ_le_succ habs
    · exact Nat.le_succ_of_le habs
  have hchars : (chars "servername=").length = 11 ∧ (chars " ").length = 1 ∧
      (chars "streamnamerx=").length = 13 ∧ (chars " nbchannels=").length = 12 ∧
      (chars "samplerate=").length = 11 ∧ (chars " format=").length = 8 ∧
      (chars " flags=").length = 7 := by
    decide
  have hmax : vbanDataMaxSize = 1436 := rfl
  have hname : vbanStreamNameSize = 16 := rfl
  rw [infoText]
  split_ifs
  · simp only [List.length_append]
    omega
  · simp only [List.length_append]
    omega

/-- What a reader of the text gets. -/
theorem cString_data (vbanOutputFormat : UInt8) (c : VbanRxContext R) :
    cString (vbanFillReceptorInfo vbanOutputFormat c).data =
      (infoText vbanOutputFormat c).take vbanDataMaxSize := by
  have hheader := infoHeader.length_toBytes
  have hstored : (infoHeader.toBytes ++ infoText vbanOutputFormat c).take vbanProtocolMaxSize =
      infoHeader.toBytes ++ (infoText vbanOutputFormat c).take vbanDataMaxSize := by
    rw [List.take_append, List.take_of_length_le, hheader]
    · rfl
    · rw [hheader]
      decide
  have hdata : (vbanFillReceptorInfo vbanOutputFormat c).data =
      (infoText vbanOutputFormat c).take vbanDataMaxSize ++
        List.replicate (vbanDataMaxSize - (infoText vbanOutputFormat c).length) 0 := by
    change (overwrite VBanPacket.zero.bytes 0 _).drop vbanHeaderSize = _
    rw [hstored, overwrite_zero, List.append_assoc, List.drop_left' hheader]
    change _ ++ (List.replicate _ _).drop _ = _
    rw [List.drop_replicate, List.length_append, hheader, List.length_take]
    congr 2
    have : vbanProtocolMaxSize = vbanHeaderSize + vbanDataMaxSize := rfl
    omega
  rw [hdata]
  apply cString_append
  · rintro d hd rfl
    exact zero_notMem_infoText vbanOutputFormat c (List.mem_of_mem_take hd)
  · intro d hd
    exact List.eq_of_mem_replicate (List.mem_of_head? hd)

/-- The name that `-s` stored is printed as it was given. -/
theorem printedName_streamnameOption (htx : c.txStreamname.Empty)
    (hlen : name.length ≤ vbanStreamNameSize) (hname : ∀ d ∈ name, d ≠ 0) :
    printedName (streamnameOption name c) = name := by
  obtain ⟨tail, htail⟩ := List.head?_eq_some_iff.mp htx
  change cString ((StreamName.strncpy name).bytes ++ c.txStreamname.bytes ++ c.servername) = name
  rw [StreamName.bytes_strncpy hlen hname, htail, List.append_assoc, List.append_assoc]
  apply cString_append hname
  cases vbanStreamNameSize - name.length with
  | zero => simp
  | succ k => simp [List.replicate_succ]

/-- A run of accepted characters before one that is not. -/
theorem takeWhile_append_cons_iff {α : Type*} {p : α → Bool} {xs ys : List α} {y : α}
    (hy : p y = false) : (xs ++ y :: ys).takeWhile p = xs ↔ ∀ x ∈ xs, p x = true := by
  constructor
  · intro h x hx
    rw [← h] at hx
    exact List.all_eq_true.mp List.all_takeWhile x hx
  · intro h
    apply takeWhile_append_stop h
    simpa using hy

/-- Bare up to a separator: the value is the name iff the name is written bare. -/
theorem valueAt_eq_iff (hne : name ≠ []) (tail : List UInt8) :
    valueAt (name ++ 32 :: tail) = name ↔
      (∀ d ∈ name.head?, isQuote d = false) ∧ ∀ d ∈ name, isSeparator d = false := by
  obtain ⟨d, name, rfl⟩ := List.exists_cons_of_ne_nil hne
  rw [List.cons_append, valueAt]
  by_cases hquote : isQuote d = true
  · rw [if_pos hquote]
    constructor
    · intro h
      -- What stands between two quotes does not start with one.
      have hd : d ∈ (name ++ 32 :: tail).takeWhile (· ≠ d) := by
        rw [h]
        exact List.mem_cons_self
      simpa using List.all_eq_true.mp List.all_takeWhile d hd
    · rintro ⟨hbare, -⟩
      rw [hbare d rfl] at hquote
      cases hquote
  · rw [if_neg hquote, ← List.cons_append, takeWhile_append_cons_iff rfl]
    constructor
    · intro h
      refine ⟨?_, fun x hx => by simpa using h x hx⟩
      intro x hx
      obtain rfl : d = x := by simpa using hx
      simpa using hquote
    · rintro ⟨-, h⟩ x hx
      simp [h x hx]

theorem getVal_eq_iff (hne : name ≠ []) (key tail : List UInt8)
    (hquote : ∀ d ∈ name.head?, isQuote d = false) :
    getVal (key ++ equalSign :: (name ++ 32 :: tail)) key = name ↔
      ∀ d ∈ name, d ∉ chars " \t\r\n;" := by
  obtain ⟨d, name, rfl⟩ := List.exists_cons_of_ne_nil hne
  have hplace : (key ++ [equalSign]).isPrefixOf (key ++ equalSign :: (d :: name ++ 32 :: tail)) =
      true := by
    rw [List.isPrefixOf_iff_prefix]
    exact ⟨d :: name ++ 32 :: tail, by simp⟩
  have hdrop : (key ++ equalSign :: (d :: name ++ 32 :: tail)).drop (key.length + 1) =
      d :: (name ++ 32 :: tail) := by
    rw [← List.drop_drop, List.drop_left]
    rfl
  have hd : ¬d = 34 := by
    rintro rfl
    cases hquote 34 rfl
  rw [getVal, firstPlace_of_pos hplace]
  simp only [hdrop]
  rw [if_neg hd, ← List.cons_append, takeWhile_append_cons_iff rfl]
  simp only [decide_eq_true_eq]

theorem ends_iff {d : UInt8} :
    isSeparator d = false ∧ d ∉ chars " \t\r\n;" ↔ d ∉ chars " ,;\t\r\n" := by
  rw [show chars " \t\r\n;" = [32, 9, 13, 10, 59] from rfl,
    show chars " ,;\t\r\n" = [32, 44, 59, 9, 13, 10] from rfl]
  simp only [isSeparator, List.mem_cons, List.not_mem_nil]
  grind

/-- The name stands bare behind its key, at the start of the text. -/
theorem cString_data_streamnameOption (vbanOutputFormat : UInt8) (htx : c.txStreamname.Empty)
    (hlen : name.length ≤ vbanStreamNameSize) (hname : ∀ d ∈ name, d ≠ 0) :
    ∃ tail, cString (vbanFillReceptorInfo vbanOutputFormat (streamnameOption name c)).data =
      nameKey c ++ equalSign :: (name ++ 32 :: tail) := by
  obtain ⟨tail, htext⟩ := infoText_eq vbanOutputFormat (streamnameOption name c)
  have hkey : (nameKey c).length ≤ 12 := by
    rw [nameKey]
    split_ifs
    · decide
    · decide
  have hfit : (nameKey c ++ equalSign :: (name ++ [32])).length ≤ vbanDataMaxSize := by
    have hmax : vbanDataMaxSize = 1436 := rfl
    have hsize : vbanStreamNameSize = 16 := rfl
    simp only [List.length_append, List.length_cons, List.length_nil]
    omega
  have htext' : infoText vbanOutputFormat (streamnameOption name c) =
      (nameKey c ++ equalSign :: (name ++ [32])) ++ tail := by
    have hkey : nameKey (streamnameOption name c) = nameKey c := rfl
    rw [htext, printedName_streamnameOption htx hlen hname, hkey]
    simp
  refine ⟨tail.take (vbanDataMaxSize - (nameKey c ++ equalSign :: (name ++ [32])).length), ?_⟩
  rw [cString_data, htext', List.take_append, List.take_of_length_le hfit]
  simp

/-- Both readers get the name back, iff it holds no character at which one of them ends a value and
does not start with a quote. -/
theorem advertised_name_iff (vbanOutputFormat : UInt8) (c : VbanRxContext R)
    (htx : c.txStreamname.Empty) (name : List UInt8) (hne : name ≠ [])
    (hlen : name.length ≤ vbanStreamNameSize) (hname : ∀ d ∈ name, d ≠ 0) (res : List UInt8)
    (resSize : Nat) (hres : name.length < resSize) :
    let data := (vbanFillReceptorInfo vbanOutputFormat (streamnameOption name c)).data
    (getValueByKey data (nameKey c) res resSize = (1, overwrite res 0 (name ++ [0])) ∧
        getVal (cString data) (nameKey c) = name) ↔
      (∀ d ∈ name.head?, isQuote d = false) ∧ ∀ d ∈ name, d ∉ chars " ,;\t\r\n" := by
  intro data
  obtain ⟨tail, hdata⟩ := cString_data_streamnameOption vbanOutputFormat htx hlen hname
  have hget : getValueByKey data (nameKey c) res resSize =
      answer res resSize (some (valueAt (name ++ 32 :: tail))) := by
    have hstands : keyStands (nameKey c) none (nameKey c ++ equalSign :: (name ++ 32 :: tail)) =
        true := keyStands_iff.mpr ⟨rfl, _, rfl⟩
    rw [getValueByKey, if_neg (by omega), hdata, scanKey_eq, firstPlace_of_pos hstands,
      Option.map_some, ← List.drop_drop, List.drop_left]
    rfl
  have hvalue : ∀ d ∈ valueAt (name ++ 32 :: tail), d ≠ 0 := by
    intro d hd
    apply ne_zero_of_mem_cString data
    rw [hdata]
    exact List.mem_append_right _ (List.mem_cons_of_mem _ (mem_of_mem_valueAt d hd))
  have hanswer : getValueByKey data (nameKey c) res resSize =
      (1, overwrite res 0 (name ++ [0])) ↔ valueAt (name ++ 32 :: tail) = name := by
    have hshort : answer res resSize (some name) = (1, overwrite res 0 (name ++ [0])) := by
      rw [answer, if_neg (by omega)]
    rw [hget, ← hshort, answer_eq_iff hvalue (by simpa using hname), SameAnswer]
    constructor
    · rintro (h | ⟨-, hlong⟩)
      · exact h
      · omega
    · exact Or.inl
  rw [hanswer, valueAt_eq_iff hne, hdata]
  constructor
  · rintro ⟨⟨hquote, hsep⟩, hval⟩
    rw [getVal_eq_iff hne _ _ hquote] at hval
    refine ⟨hquote, ?_⟩
    intro d hd
    exact ends_iff.mp ⟨hsep d hd, hval d hd⟩
  · rintro ⟨hquote, hends⟩
    rw [getVal_eq_iff hne _ _ hquote]
    refine ⟨⟨hquote, ?_⟩, ?_⟩
    · intro d hd
      exact (ends_iff.mpr (hends d hd)).1
    · intro d hd
      exact (ends_iff.mpr (hends d hd)).2

def freshReceptor : VbanRxContext Unit := .start (.strncpy []) 0 6980

theorem advertised_name_iff_mix :
    getVal (cString (vbanFillReceptorInfo vbanBitfmt32Float
      (streamnameOption (chars "mix") freshReceptor)).data) (nameKey freshReceptor) =
        chars "mix" :=
  ((advertised_name_iff vbanBitfmt32Float freshReceptor rfl (chars "mix") (by decide) (by decide)
    (forall_mem_of_all (by decide)) (List.replicate 32 0) 32 (by decide)).mpr
      ⟨by rintro d ⟨⟩; rfl, forall_mem_of_all (by decide)⟩).2

/-- Of `my mix` both readers return `my`. -/
theorem spaced_name_cut :
    let data := (vbanFillReceptorInfo vbanBitfmt32Float
      (streamnameOption (chars "my mix") freshReceptor)).data
    ¬(getValueByKey data (chars "streamnamerx") (List.replicate 32 0) 32 =
        (1, overwrite (List.replicate 32 0) 0 (chars "my mix" ++ [0])) ∧
      getVal (cString data) (chars "streamnamerx") = chars "my mix") ∧
    getVal (cString data) (chars "streamnamerx") = chars "my" := by
  decide

end Vban.Discovery

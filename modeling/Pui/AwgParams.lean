import Pui.Decimal
import Pui.Guard
import Pui.Routing
import Pui.ShareLink

/-!
# Parameters of an AmneziaWG device

The parameters are stored as a JSON object.
-/

namespace Pui

open Guard List Option

namespace Awg

inductive Number where
  | jc | jmin | jmax | s1 | s2 | s3 | s4
  deriving DecidableEq

inductive Header where
  | h1 | h2 | h3 | h4
  deriving DecidableEq

inductive Text where
  | i1 | i2 | i3 | i4 | i5 | headerProtectionKey
  deriving DecidableEq

inductive Flag where
  | randomTrailers | disableCookies
  deriving DecidableEq

inductive Timer where
  | contentPaddingAddition | rekeyAfterTime | rekeyTimeout | rejectAfterTime | keepaliveTimeout | maxHandshakeAttempts
  deriving DecidableEq

inductive Field where
  | number (n : Number)
  | header (h : Header)
  | text (t : Text)
  | flag (f : Flag)
  | timer (t : Timer)
  deriving DecidableEq

def Number.all : List Number := [.jc, .jmin, .jmax, .s1, .s2, .s3, .s4]

def Header.all : List Header := [.h1, .h2, .h3, .h4]

def Text.all : List Text := [.i1, .i2, .i3, .i4, .i5, .headerProtectionKey]

def Flag.all : List Flag := [.randomTrailers, .disableCookies]

def Timer.all : List Timer :=
  [.contentPaddingAddition, .rekeyAfterTime, .rekeyTimeout, .rejectAfterTime, .keepaliveTimeout, .maxHandshakeAttempts]

def Field.all : List Field :=
  Number.all.map .number ++ Header.all.map .header ++ Text.all.map .text ++ Flag.all.map .flag ++ Timer.all.map .timer

def Field.name : Field → String
  | .number .jc => "jc"
  | .number .jmin => "jmin"
  | .number .jmax => "jmax"
  | .number .s1 => "s1"
  | .number .s2 => "s2"
  | .number .s3 => "s3"
  | .number .s4 => "s4"
  | .header .h1 => "h1"
  | .header .h2 => "h2"
  | .header .h3 => "h3"
  | .header .h4 => "h4"
  | .text .i1 => "i1"
  | .text .i2 => "i2"
  | .text .i3 => "i3"
  | .text .i4 => "i4"
  | .text .i5 => "i5"
  | .text .headerProtectionKey => "headerProtectionKey"
  | .flag .randomTrailers => "randomTrailers"
  | .flag .disableCookies => "disableCookies"
  | .timer .contentPaddingAddition => "contentPaddingAddition"
  | .timer .rekeyAfterTime => "rekeyAfterTime"
  | .timer .rekeyTimeout => "rekeyTimeout"
  | .timer .rejectAfterTime => "rejectAfterTime"
  | .timer .keepaliveTimeout => "keepaliveTimeout"
  | .timer .maxHandshakeAttempts => "maxHandshakeAttempts"

@[ext] structure Params where
  number : Number → Nat
  header : Header → Nat
  text : Text → String
  flag : Flag → Bool
  timer : Timer → Nat

inductive RangeError where
  /-- The value is neither a text nor a number. -/
  | value (raw : Json)
  | text (text : List Char)
  /-- The upper bound is below the lower one. -/
  | reversed (text : List Char)

inductive ParamsError where
  | json
  | range (field : String) (err : RangeError)
  | junkRange (jmin jmax : Nat)
  | headerOverlap (left right : String) (value : Nat)
  | clearedOverlap (left right : String) (lo hi : Nat)
  | headerKeyLength
  | paddingTooSmall (field : String) (value : Nat)

def packRange (bits lo hi : Nat) : Nat := hi <<< bits ||| lo

def headerRange : Nat → Nat → Nat := packRange 32

def lowOf (bits value : Nat) : Nat := value % 2 ^ bits

def highOf (bits value : Nat) : Nat := (value >>> bits) % 2 ^ bits

def parseUint (bits : Nat) (text : List Char) : Option Nat := (Decimal.value text).filter (· < 2 ^ bits)

def parseBounds (bits : Nat) (text : List Char) : Except RangeError (Nat × Nat) :=
  let trimmed := Routing.trimSpace text
  if trimmed = [] then .ok (0, 0)
  else
    match Decimal.cut '-' trimmed with
    | (loText, none) => do
      let lo ← found (parseUint bits (Routing.trimSpace loText)) (.text text)
      return (lo, lo)
    | (loText, some hiText) => do
      let lo ← found (parseUint bits (Routing.trimSpace loText)) (.text text)
      let hi ← found (parseUint bits (Routing.trimSpace hiText)) (.text text)
      refuse (hi < lo) (.reversed text)
      return (lo, hi)

def parseRange (bits : Nat) (text : List Char) : Except RangeError Nat := do
  let (lo, hi) ← parseBounds bits text
  return packRange bits lo hi

def parseHeaderRange : List Char → Except RangeError Nat := parseRange 32

def parseTimerRange : List Char → Except RangeError Nat := parseRange 16

def formatBounds (lo hi : Nat) : List Char :=
  if lo = 0 ∧ hi = 0 then [] else if lo = hi then Nat.toDigits 10 lo else Nat.toDigits 10 lo ++ '-' :: Nat.toDigits 10 hi

def formatRange (bits value : Nat) : List Char := formatBounds (lowOf bits value) (highOf bits value)

def formatHeaderRange : Nat → List Char := formatRange 32

def formatTimerRange : Nat → List Char := formatRange 16

def decodeRange (parse : List Char → Except RangeError Nat) : Option Json → Except RangeError Nat
  | none | some .null => .ok 0
  | some (.string text) => parse text.toList
  | some (.number literal) =>
    match parseUint 64 literal.toList with
    | some number => parse (Nat.toDigits 10 number)
    | none => .error (.value (.number literal))
  | some raw => .error (.value raw)

def encodeRange (text : List Char) : Option Json := if text = [] then none else some (.string (String.ofList text))

section Ranges

variable {bits lo hi : Nat}

theorem packRange_eq (hlo : lo < 2 ^ bits) : packRange bits lo hi = hi * 2 ^ bits + lo := by
  rw [packRange, ← Nat.shiftLeft_add_eq_or_of_lt hlo, Nat.shiftLeft_eq]

theorem lowOf_packRange (hlo : lo < 2 ^ bits) : lowOf bits (packRange bits lo hi) = lo := by
  rw [lowOf, packRange_eq hlo, Nat.mul_add_mod_of_lt hlo]

theorem highOf_packRange (hlo : lo < 2 ^ bits) (hhi : hi < 2 ^ bits) : highOf bits (packRange bits lo hi) = hi := by
  rw [highOf, packRange_eq hlo, Nat.shiftRight_eq_div_pow, Nat.add_comm, Nat.add_mul_div_right _ _ (Nat.two_pow_pos bits),
    Nat.div_eq_of_lt hlo, Nat.zero_add, Nat.mod_eq_of_lt hhi]

def Ranged (bits value : Nat) : Prop := ∃ lo hi, lo ≤ hi ∧ hi < 2 ^ bits ∧ value = packRange bits lo hi

theorem packRange_zero (bits : Nat) : packRange bits 0 0 = 0 := by simp [packRange]

theorem Ranged.zero (bits : Nat) : Ranged bits 0 := ⟨0, 0, le_rfl, Nat.two_pow_pos bits, (packRange_zero bits).symm⟩

theorem Ranged.low_le_high {value : Nat} (h : Ranged bits value) : lowOf bits value ≤ highOf bits value := by
  obtain ⟨lo, hi, hle, hhi, rfl⟩ := h
  rwa [lowOf_packRange (hle.trans_lt hhi), highOf_packRange (hle.trans_lt hhi) hhi]

theorem Ranged.packRange_eq {value : Nat} (h : Ranged bits value) : packRange bits (lowOf bits value) (highOf bits value) = value := by
  obtain ⟨lo, hi, hle, hhi, rfl⟩ := h
  rw [lowOf_packRange (hle.trans_lt hhi), highOf_packRange (hle.trans_lt hhi) hhi]

theorem lt_of_parseUint {text : List Char} {n : Nat} (h : parseUint bits text = some n) : n < 2 ^ bits := by
  rw [parseUint, filter_eq_some_iff] at h
  exact of_decide_eq_true h.2

theorem parseUint_toDigits {n : Nat} (h : n < 2 ^ bits) : parseUint bits (Nat.toDigits 10 n) = some n := by
  rw [parseUint, Decimal.value_toDigits, filter_some, if_pos (decide_eq_true h)]

theorem parseBounds_eq_ok {text : List Char} (h : parseBounds bits text = .ok (lo, hi)) : lo ≤ hi ∧ hi < 2 ^ bits := by
  unfold parseBounds at h
  dsimp only at h
  split at h
  · cases h
    exact ⟨le_rfl, Nat.two_pow_pos bits⟩
  · split at h
    · simp only [bind_eq_ok, found_eq_ok, pure_eq_ok, Prod.mk.injEq] at h
      obtain ⟨n, hn, rfl, rfl⟩ := h
      exact ⟨le_rfl, lt_of_parseUint hn⟩
    · simp only [bind_eq_ok, found_eq_ok, refuse_eq_ok, pure_eq_ok, Prod.mk.injEq, not_lt] at h
      obtain ⟨n, -, m, hm, -, hle, rfl, rfl⟩ := h
      exact ⟨hle, lt_of_parseUint hm⟩

theorem ranged_of_decodeRange {raw : Option Json} {value : Nat} (h : decodeRange (parseRange bits) raw = .ok value) :
    Ranged bits value := by
  have hparse : ∀ text, parseRange bits text = .ok value → Ranged bits value := by
    intro text htext
    simp only [parseRange, bind_eq_ok, pure_eq_ok] at htext
    obtain ⟨⟨lo, hi⟩, hbounds, rfl⟩ := htext
    obtain ⟨hle, hhi⟩ := parseBounds_eq_ok hbounds
    exact ⟨lo, hi, hle, hhi, rfl⟩
  unfold decodeRange at h
  split at h
  · cases h
    exact .zero bits
  · cases h
    exact .zero bits
  · exact hparse _ h
  · split at h
    · exact hparse _ h
    · cases h
  · cases h

theorem isSpace_of_isDigit {c : Char} (h : c.isDigit = true) : Routing.isSpace c = false := by
  have hrange : 48 ≤ c.toNat ∧ c.toNat ≤ 57 := by simpa [Char.isDigit, UInt32.le_iff_toNat_le] using h
  simp only [Routing.isSpace, Bool.or_eq_false_iff, Bool.and_eq_false_iff, contains_eq_mem, decide_eq_false_iff_not, mem_cons,
    not_mem_nil, or_false]
  omega

theorem trimSpace_of_not_space {text : List Char} (h : ∀ c ∈ text, Routing.isSpace c = false) : Routing.trimSpace text = text := by
  have hdrop : ∀ l : List Char, (∀ c ∈ l, Routing.isSpace c = false) → l.dropWhile Routing.isSpace = l := by
    intro l hl
    cases l with
    | nil => rfl
    | cons c l => exact dropWhile_cons_of_neg (by simp [hl c mem_cons_self])
  rw [Routing.trimSpace, hdrop text h, hdrop text.reverse (fun c hc => h c (mem_reverse.mp hc)), reverse_reverse]

theorem trimSpace_toDigits (n : Nat) : Routing.trimSpace (Nat.toDigits 10 n) = Nat.toDigits 10 n :=
  trimSpace_of_not_space fun _ hc => isSpace_of_isDigit (Decimal.isDigit_of_mem_toDigits hc)

theorem parseBounds_formatBounds (hle : lo ≤ hi) (hhi : hi < 2 ^ bits) : parseBounds bits (formatBounds lo hi) = .ok (lo, hi) := by
  have hdash : ∀ n, '-' ∉ Nat.toDigits 10 n := Decimal.not_mem_toDigits (by decide)
  unfold formatBounds
  split
  · next hzero =>
    obtain ⟨rfl, rfl⟩ := hzero
    rfl
  · unfold parseBounds
    split
    · next heq =>
      subst heq
      rw [trimSpace_toDigits, if_neg Nat.toDigits_ne_nil, Decimal.cut_of_not_mem (hdash lo)]
      dsimp only
      rw [trimSpace_toDigits, parseUint_toDigits hhi]
      rfl
    · have htrim : Routing.trimSpace (Nat.toDigits 10 lo ++ '-' :: Nat.toDigits 10 hi) = Nat.toDigits 10 lo ++ '-' :: Nat.toDigits 10 hi := by
        refine trimSpace_of_not_space fun c hc => ?_
        rcases mem_append.mp hc with hc | hc
        · exact isSpace_of_isDigit (Decimal.isDigit_of_mem_toDigits hc)
        · rcases mem_cons.mp hc with rfl | hc
          · decide
          · exact isSpace_of_isDigit (Decimal.isDigit_of_mem_toDigits hc)
      rw [htrim, if_neg (by simp), Decimal.cut_append (hdash lo)]
      dsimp only
      rw [trimSpace_toDigits, trimSpace_toDigits, parseUint_toDigits (hle.trans_lt hhi), parseUint_toDigits hhi]
      exact congrArg (· >>= fun _ => _) (refuse_of_not (Nat.not_lt.mpr hle) _)

theorem Ranged.decodeRange {value : Nat} (h : Ranged bits value) :
    decodeRange (parseRange bits) (encodeRange (formatRange bits value)) = .ok value := by
  have hparse : parseRange bits (formatRange bits value) = .ok value := by
    obtain ⟨lo, hi, hle, hhi, rfl⟩ := h
    rw [formatRange, lowOf_packRange (hle.trans_lt hhi), highOf_packRange (hle.trans_lt hhi) hhi, parseRange, parseBounds_formatBounds hle hhi]
    rfl
  unfold encodeRange
  split
  · next hnil =>
    rw [hnil] at hparse
    exact (congrArg Except.ok (packRange_zero bits).symm).trans hparse
  · rw [Awg.decodeRange, String.toList_ofList]
    exact hparse

end Ranges

def members : Json → Option (List (String × Json))
  | .null => some []
  | .object fields => some fields
  | _ => none

def named (fields : List (String × Json)) (f : Field) : List Json :=
  fields.filterMap fun member => if ShareLink.equalFold member.1 f.name then some member.2 else none

def decodeAll {α : Type} (read : Json → Option α) (zero : α) (values : List Json) : Except ParamsError α :=
  values.foldlM (fun old value => if value = .null then .ok old else found (read value) .json) zero

def readUint16 : Json → Option Nat
  | .number literal => parseUint 16 literal.toList
  | _ => none

def readString : Json → Option String
  | .string s => some s
  | _ => none

def readBool : Json → Option Bool
  | .bool b => some b
  | _ => none

def fill {ι α : Type} (all : List ι) (zero : α) (get : ι → Except ParamsError α) : Except ParamsError (ι → α) := do
  all.forM fun i => (get i).map fun _ => ()
  return fun i => (get i).toOption.getD zero

def rangeOf (fields : List (String × Json)) (f : Field) (parse : List Char → Except RangeError Nat) : Except ParamsError Nat :=
  (decodeRange parse (named fields f).getLast?).mapError (.range f.name)

def unmarshalJSON (doc : Json) : Except ParamsError Params := do
  let fields ← found (members doc) .json
  let number ← fill Number.all 0 fun n => decodeAll readUint16 0 (named fields (.number n))
  let text ← fill Text.all "" fun t => decodeAll readString "" (named fields (.text t))
  let flag ← fill Flag.all false fun f => decodeAll readBool false (named fields (.flag f))
  let header ← fill Header.all 0 fun h => rangeOf fields (.header h) parseHeaderRange
  let timer ← fill Timer.all 0 fun t => rangeOf fields (.timer t) parseTimerRange
  return ⟨number, header, text, flag, timer⟩

def Params.member (p : Params) : Field → Option Json
  | .number n => if p.number n = 0 then none else some (.number (String.ofList (Nat.toDigits 10 (p.number n))))
  | .header h => encodeRange (formatHeaderRange (p.header h))
  | .text t => if p.text t = "" then none else some (.string (p.text t))
  | .flag f => if p.flag f then some (.bool true) else none
  | .timer t => encodeRange (formatTimerRange (p.timer t))

def Params.marshalJSON (p : Params) : Json := .object (Field.all.filterMap fun f => (p.member f).map fun v => (f.name, v))

theorem Field.mem_all (f : Field) : f ∈ Field.all := by
  rcases f with f | f | f | f | f <;> cases f <;> decide

theorem equalFold_name (f g : Field) : ShareLink.equalFold f.name g.name = true ↔ f = g := by
  have hall : ∀ f ∈ Field.all, ∀ g ∈ Field.all, (ShareLink.equalFold f.name g.name = true ↔ f = g) := by decide +kernel
  exact hall f f.mem_all g g.mem_all

theorem filterMap_of_nodup {α β : Type} [DecidableEq α] {l : List α} (hnodup : l.Nodup) {a : α} (ha : a ∈ l) (m : α → Option β) :
    l.filterMap (fun b => if b = a then m b else none) = (m a).toList := by
  obtain ⟨front, rest, rfl⟩ := append_of_mem ha
  obtain ⟨hnot, -⟩ := nodup_cons.mp (nodup_middle.mp hnodup)
  obtain ⟨hfront, hrest⟩ := not_or.mp (mem_append.not.mp hnot)
  have hnone : ∀ part : List α, a ∉ part → part.filterMap (fun b => if b = a then m b else none) = [] := by
    intro part hpart
    refine filterMap_eq_nil_iff.mpr fun b hb => if_neg ?_
    rintro rfl
    exact hpart hb
  rw [filterMap_append, hnone front hfront, filterMap_cons, if_pos rfl, hnone rest hrest]
  cases m a <;> rfl

theorem named_marshalJSON (p : Params) (f : Field) :
    named (Field.all.filterMap fun g => (p.member g).map fun v => (g.name, v)) f = (p.member f).toList := by
  rw [named, filterMap_filterMap, ← filterMap_of_nodup (by decide) f.mem_all p.member]
  refine filterMap_congr fun g _ => ?_
  cases hmember : p.member g with
  | none => exact (ite_self _).symm
  | some v =>
    rw [map_some, bind_some]
    simp only [equalFold_name]

theorem fill_eq_ok {ι α : Type} {all : List ι} {zero : α} {get : ι → Except ParamsError α} {g : ι → α} (hall : ∀ i, i ∈ all) :
    fill all zero get = .ok g ↔ ∀ i, get i = .ok (g i) := by
  rw [fill, unit_bind_eq_ok, forM_eq_ok, pure_eq_ok]
  constructor
  · rintro ⟨hok, rfl⟩ i
    have hi := hok i (hall i)
    cases hget : get i with
    | error e =>
      rw [hget] at hi
      cases hi
    | ok v =>
      dsimp only
      rw [hget]
      rfl
  · intro hget
    refine ⟨fun i _ => ?_, funext fun i => ?_⟩
    · rw [hget i]
      rfl
    · rw [hget i]
      rfl

theorem decodeAll_some {α : Type} {read : Json → Option α} {zero v : α} {value : Json} (hnull : value ≠ .null) (hread : read value = some v) :
    decodeAll read zero (some value).toList = .ok v := by
  simp only [decodeAll, toList_some, foldlM_cons, foldlM_nil, if_neg hnull, hread]
  rfl

structure Params.Decoded (p : Params) : Prop where
  number : ∀ n, p.number n < 2 ^ 16
  header : ∀ h, Ranged 32 (p.header h)
  timer : ∀ t, Ranged 16 (p.timer t)

theorem mapError_eq_ok {ε ε' α : Type} {x : Except ε α} {f : ε → ε'} {a : α} : x.mapError f = .ok a ↔ x = .ok a := by
  cases x <;> simp [Except.mapError]

theorem unmarshalJSON_eq_ok {doc : Json} {p : Params} : unmarshalJSON doc = .ok p ↔ ∃ fields, members doc = some fields ∧
    (∀ n, decodeAll readUint16 0 (named fields (.number n)) = .ok (p.number n)) ∧
    (∀ t, decodeAll readString "" (named fields (.text t)) = .ok (p.text t)) ∧
    (∀ f, decodeAll readBool false (named fields (.flag f)) = .ok (p.flag f)) ∧
    (∀ h, decodeRange parseHeaderRange (named fields (.header h)).getLast? = .ok (p.header h)) ∧
    ∀ t, decodeRange parseTimerRange (named fields (.timer t)).getLast? = .ok (p.timer t) := by
  have hnumber : ∀ n, n ∈ Number.all := by intro n; cases n <;> decide
  have htext : ∀ t, t ∈ Text.all := by intro t; cases t <;> decide
  have hflag : ∀ f, f ∈ Flag.all := by intro f; cases f <;> decide
  have hheader : ∀ h, h ∈ Header.all := by intro h; cases h <;> decide
  have htimer : ∀ t, t ∈ Timer.all := by intro t; cases t <;> decide
  simp only [unmarshalJSON, bind_eq_ok, found_eq_ok, fill_eq_ok hnumber, fill_eq_ok htext, fill_eq_ok hflag, fill_eq_ok hheader,
    fill_eq_ok htimer, pure_eq_ok, rangeOf, mapError_eq_ok]
  constructor
  · rintro ⟨fields, hfields, number, hn, text, ht, flag, hf, header, hh, timer, htm, rfl⟩
    exact ⟨fields, hfields, hn, ht, hf, hh, htm⟩
  · rintro ⟨fields, hfields, hn, ht, hf, hh, htm⟩
    exact ⟨fields, hfields, _, hn, _, ht, _, hf, _, hh, _, htm, rfl⟩

theorem decoded_of_unmarshalJSON {doc : Json} {p : Params} (h : unmarshalJSON doc = .ok p) : p.Decoded := by
  obtain ⟨fields, -, hnumber, -, -, hheader, htimer⟩ := unmarshalJSON_eq_ok.mp h
  refine ⟨fun n => ?_, fun h => ranged_of_decodeRange (hheader h), fun t => ranged_of_decodeRange (htimer t)⟩
  refine foldlM_keeps (I := (· < 2 ^ 16)) (fun old value _ next hnext hold => ?_) (hnumber n) (Nat.two_pow_pos 16)
  split at hnext
  · cases hnext
    exact hold
  · rw [found_eq_ok] at hnext
    cases value with
    | number literal => exact lt_of_parseUint hnext
    | null | bool | string | array | object => cases hnext

theorem getLast?_toList {α : Type} (o : Option α) : o.toList.getLast? = o := by cases o <;> rfl

theorem Params.Decoded.unmarshalJSON {p : Params} (h : p.Decoded) : Awg.unmarshalJSON p.marshalJSON = .ok p := by
  refine unmarshalJSON_eq_ok.mpr ⟨_, rfl, fun n => ?_, fun t => ?_, fun f => ?_, fun h' => ?_, fun t => ?_⟩
  · rw [named_marshalJSON, Params.member]
    by_cases hzero : p.number n = 0
    · rw [if_pos hzero, hzero]
      rfl
    · rw [if_neg hzero]
      refine decodeAll_some (by simp) ?_
      rw [readUint16, String.toList_ofList, parseUint_toDigits (h.number n)]
  · rw [named_marshalJSON, Params.member]
    by_cases hzero : p.text t = ""
    · rw [if_pos hzero, hzero]
      rfl
    · rw [if_neg hzero]
      exact decodeAll_some (by simp) rfl
  · rw [named_marshalJSON, Params.member]
    cases p.flag f with
    | false => rfl
    | true => exact decodeAll_some (by simp) rfl
  · rw [named_marshalJSON, getLast?_toList]
    exact (h.header h').decodeRange
  · rw [named_marshalJSON, getLast?_toList]
    exact (h.timer t).decodeRange

def Header.pairs : List (Header × Header) := [(.h1, .h2), (.h1, .h3), (.h1, .h4), (.h2, .h3), (.h2, .h4), (.h3, .h4)]

def headersOverlap (left right : Nat) : Bool := lowOf 32 left ≤ highOf 32 right && lowOf 32 right ≤ highOf 32 left

def Header.messageType : Header → Nat
  | .h1 => 1
  | .h2 => 2
  | .h3 => 3
  | .h4 => 4

def wgHeaderDefaults (h : Header) : Nat := headerRange h.messageType h.messageType

def Params.clearedHeader (p : Params) (h : Header) : Nat := if p.header h = 0 then wgHeaderDefaults h else p.header h

def headersDoNotOverlapAfterClearing (p : Params) : Except ParamsError Unit :=
  Header.pairs.forM fun (left, right) => refuse (headersOverlap (p.clearedHeader left) (p.clearedHeader right) = true)
    (.clearedOverlap (Field.header left).name (Field.header right).name (lowOf 32 (p.clearedHeader right)) (highOf 32 (p.clearedHeader right)))

def headerProtectionKeySize : Nat := 32

def headerProtectionNonceSize : Nat := 12

def Params.validate (decodeString : String → List UInt8 × Bool) (p : Params) : Except ParamsError Unit := do
  refuse (p.number .jmin > p.number .jmax) (.junkRange (p.number .jmin) (p.number .jmax))
  Header.pairs.forM fun (left, right) =>
    refuse (p.header left ≠ 0 ∧ p.header right ≠ 0 ∧ headersOverlap (p.header left) (p.header right) = true)
      (.headerOverlap (Field.header left).name (Field.header right).name (p.header left))
  headersDoNotOverlapAfterClearing p
  if p.text .headerProtectionKey = "" then return ()
  else do
    let (key, ok) := decodeString (p.text .headerProtectionKey)
    refuse (ok = false ∨ key.length ≠ headerProtectionKeySize) .headerKeyLength
    [Number.s1, .s2, .s3, .s4].forM fun s =>
      refuse (p.number s < headerProtectionNonceSize) (.paddingTooSmall (Field.number s).name (p.number s))

inductive Payload where
  | u16 (value : Nat)
  | u32 (value : Nat)
  | u64 (value : Nat)
  | nulString (s : String)
  | bytes (data : List UInt8)
  deriving DecidableEq

def encodeParams (decodeString : String → List UInt8 × Bool) (p : Params) (replace : Bool) : List (Field × Payload) :=
  (Number.all.filter fun n => replace || p.number n != 0).map (fun n => (.number n, .u16 (p.number n))) ++
  (if replace then Header.all.map fun h => (.header h, .u64 (p.clearedHeader h))
    else (Header.all.filter fun h => p.header h != 0).map fun h => (.header h, .u64 (p.header h))) ++
  ([Text.i1, .i2, .i3, .i4, .i5].filter fun t => p.text t != "").map (fun t => (.text t, .nulString (p.text t))) ++
  (if p.text .headerProtectionKey = "" then []
    else [(.text .headerProtectionKey, .bytes (decodeString (p.text .headerProtectionKey)).1)]) ++
  (Timer.all.filter fun t => p.timer t != 0).map (fun t => (.timer t, .u32 (p.timer t))) ++
  (Flag.all.filter fun f => p.flag f).map fun f => (.flag f, .bytes [1])

def Params.effective (p : Params) (h : Header) : Nat × Nat :=
  if p.header h = 0 then (h.messageType, h.messageType) else (lowOf 32 (p.header h), highOf 32 (p.header h))

theorem Header.messageType_lt (h : Header) : h.messageType < 2 ^ 32 := by cases h <;> decide

theorem effective_eq (p : Params) (h : Header) : p.effective h = (lowOf 32 (p.clearedHeader h), highOf 32 (p.clearedHeader h)) := by
  unfold Params.effective Params.clearedHeader
  split
  · rw [wgHeaderDefaults, headerRange, lowOf_packRange h.messageType_lt, highOf_packRange h.messageType_lt h.messageType_lt]
  · rfl

theorem Params.Decoded.ranged_clearedHeader {p : Params} (hp : p.Decoded) (h : Header) : Ranged 32 (p.clearedHeader h) := by
  unfold Params.clearedHeader
  split
  · exact ⟨h.messageType, h.messageType, le_rfl, h.messageType_lt, rfl⟩
  · exact hp.header h

theorem not_both_of_validate {decodeString : String → List UInt8 × Bool} {p : Params} (hvalid : p.validate decodeString = .ok ())
    {left right : Header} (hne : left ≠ right) (n : Nat) :
    ¬(((p.effective left).1 ≤ n ∧ n ≤ (p.effective left).2) ∧ (p.effective right).1 ≤ n ∧ n ≤ (p.effective right).2) := by
  have hcleared : headersDoNotOverlapAfterClearing p = .ok () := by
    simp only [Params.validate, unit_bind_eq_ok] at hvalid
    exact hvalid.2.2.1
  rw [headersDoNotOverlapAfterClearing, forM_eq_ok] at hcleared
  have hapart : ∀ l r, (l, r) ∈ Header.pairs →
      ¬((p.effective l).1 ≤ (p.effective r).2 ∧ (p.effective r).1 ≤ (p.effective l).2) := by
    intro l r hmem
    have hpair := hcleared (l, r) hmem
    simpa [headersOverlap, effective_eq] using hpair
  have hpairs : (left, right) ∈ Header.pairs ∨ (right, left) ∈ Header.pairs := by
    cases left <;> cases right <;> simp_all [Header.pairs]
  rintro ⟨⟨hl, hl'⟩, hr, hr'⟩
  rcases hpairs with hmem | hmem
  · exact hapart _ _ hmem ⟨hl.trans hr', hr.trans hl'⟩
  · exact hapart _ _ hmem ⟨hr.trans hl', hl.trans hr'⟩

theorem filter_encodeParams (decodeString : String → List UInt8 × Bool) (p : Params) :
    (encodeParams decodeString p true).filter (fun a => a.1 matches .header _) =
      Header.all.map fun header => (.header header, .u64 (p.clearedHeader header)) := by
  simp only [encodeParams, List.filter_append, List.filter_map, Function.comp_def, if_true, List.filter_false, List.map_nil,
    List.filter_true, List.nil_append]
  split <;> simp

/-- The parameters of a document that pass the checks have headers that are not empty and have no value in common, and these are
what a device is sent; and the parameters of any document are read back from what they are written as. -/
theorem headers_stay_apart (doc : Json) (p : Params) (h : unmarshalJSON doc = .ok p) :
    (∀ decodeString, p.validate decodeString = .ok () →
      (∀ header, (p.effective header).1 ≤ (p.effective header).2) ∧
      (∀ left right, left ≠ right → ∀ n,
        ¬(((p.effective left).1 ≤ n ∧ n ≤ (p.effective left).2) ∧ (p.effective right).1 ≤ n ∧ n ≤ (p.effective right).2)) ∧
      (encodeParams decodeString p true).filter (fun a => a.1 matches .header _) =
        Header.all.map fun header => (.header header, .u64 (headerRange (p.effective header).1 (p.effective header).2))) ∧
    unmarshalJSON p.marshalJSON = .ok p := by
  have hdecoded := decoded_of_unmarshalJSON h
  refine ⟨fun decodeString hvalid => ⟨fun header => ?_, fun left right hne => not_both_of_validate hvalid hne, ?_⟩, hdecoded.unmarshalJSON⟩
  · rw [effective_eq]
    exact (hdecoded.ranged_clearedHeader header).low_le_high
  · have hrange : ∀ header, headerRange (p.effective header).1 (p.effective header).2 = p.clearedHeader header := by
      intro header
      rw [effective_eq]
      exact (hdecoded.ranged_clearedHeader header).packRange_eq
    simp only [hrange]
    exact filter_encodeParams decodeString p

namespace Sample

/-- A range in a text, an older number, a key in capitals, a cleared header. -/
def document : Json := .object [("H1", .string " 10 - 19"), ("h2", .number "20"), ("h4", .string "0"), ("jc", .number "3"), ("i1", .null)]

end Sample

theorem headers_stay_apart_sample :
    (unmarshalJSON Sample.document).toOption.map (fun p => Header.all.map p.effective) = some [(10, 19), (20, 20), (3, 3), (4, 4)] ∧
      ∃ p, unmarshalJSON Sample.document = .ok p ∧ p.validate (fun _ => ([], false)) = .ok () ∧
        (∀ header, (p.effective header).1 ≤ (p.effective header).2) ∧ unmarshalJSON p.marshalJSON = .ok p := by
  refine ⟨by decide +kernel, ?_⟩
  have hok : (unmarshalJSON Sample.document >>= fun p => p.validate fun _ => ([], false)).isOk = true := by decide +kernel
  obtain ⟨p, hdoc, hvalid⟩ := bind_eq_ok.mp (isOk_eq_true.mp hok)
  obtain ⟨hapart, hback⟩ := headers_stay_apart Sample.document p hdoc
  exact ⟨p, hdoc, hvalid, (hapart _ hvalid).1, hback⟩

end Awg

end Pui

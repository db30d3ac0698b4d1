import Mathlib.Data.List.MinMax
import Pui.Decimal
import Pui.WireGuard

/-!
# Texts of addresses

The text of an address and of a prefix. Subjects are ordered by it, so two prefixes must not share one.
-/

namespace Pui

open List

namespace WireGuard

/-- The `n + 1` fields of a number in base `2 ^ w`, the highest first. -/
def fields (w : Nat) : Nat → Nat → List Nat
  | 0, v => [v]
  | n + 1, v => fields w n (v / 2 ^ w) ++ [v % 2 ^ w]

/-- Numbers in base `b` with a separator between them. -/
def joined (sep : Char) (b : Nat) (l : List Nat) : List Char := [sep].intercalate (l.map (Nat.toDigits b))

namespace Addr

def string4 (value : Nat) : List Char := joined '.' 10 (fields 8 3 value)

def zeroRun (groups : List Nat) (i : Nat) : Nat := ((groups.drop i).takeWhile (· = 0)).length

/-- Where the first of the longest runs of zero groups starts, if it has two groups or more. -/
def zeroStart (groups : List Nat) : Option Nat :=
  ((range groups.length).argmax (zeroRun groups)).filter (2 ≤ zeroRun groups ·)

/-- Hexadecimal groups between colons. Two colons stand for the run of zeros. -/
def compressed (groups : List Nat) : List Char :=
  match zeroStart groups with
  | none => joined ':' 16 groups
  | some i => joined ':' 16 (groups.take i) ++ ':' :: ':' :: joined ':' 16 (groups.drop (i + zeroRun groups i))

def string6 (value : Nat) : List Char := compressed (fields 16 7 value)

/-- The text of an address. An address of version 4 that is mapped into version 6 keeps its dots. -/
def string (a : Addr) : List Char :=
  match a.family with
  | .v4 => string4 a.value
  | .v6 => if a.is4In6 then "::ffff:".toList ++ string4 (a.value % 2 ^ 32) else string6 a.value

end Addr

/-- The text of a prefix: its address, a slash and its length. -/
def Prefix.string (p : Prefix) : String := String.ofList (p.addr.string ++ '/' :: Nat.toDigits 10 p.bits)

example : Prefix.string ⟨⟨.v4, 167772161⟩, 32⟩ = "10.0.0.1/32" := by decide +kernel

example : Prefix.string ⟨⟨.v6, 0x20010db8000000000001000000000001⟩, 64⟩ = "2001:db8::1:0:0:1/64" := by decide +kernel

/-! ### Joined numbers -/

section Joined

variable {sep c : Char} {b : Nat} {l : List Nat}

private theorem fields_inj {w n v v' : Nat} (h : fields w n v = fields w n v') : v = v' := by
  induction n generalizing v v' with
  | zero => simpa [fields] using h
  | succ n ih =>
    obtain ⟨hdiv, hmod⟩ := append_inj' h rfl
    rw [← Nat.div_add_mod v (2 ^ w), ← Nat.div_add_mod v' (2 ^ w), ih hdiv, (List.cons.inj hmod).1]

private theorem mem_joined (hb : 1 < b) (hb' : b ≤ 16) (h : c ∈ joined sep b l) : c = sep ∨ c.isAlphanum := by
  induction l with
  | nil => simp [joined, intercalate] at h
  | cons n l ih =>
    cases l with
    | nil => exact .inr (Decimal.isAlphanum_of_mem_toDigits hb hb' (by simpa [joined, intercalate] using h))
    | cons m l =>
      have hcons : joined sep b (n :: m :: l) = Nat.toDigits b n ++ sep :: joined sep b (m :: l) := by
        simp [joined, intercalate]
      rw [hcons, mem_append, mem_cons] at h
      rcases h with hn | hsep | hrest
      · exact .inr (Decimal.isAlphanum_of_mem_toDigits hb hb' hn)
      · exact .inl hsep
      · exact ih hrest

/-- The pieces of joined numbers between the separators. No numbers at all have one empty piece. -/
private theorem splitOn_joined (hb : 1 < b) (hb' : b ≤ 16) (hsep : sep.isAlphanum = false) (l : List Nat) :
    l = [] ∧ (joined sep b l).splitOn sep = [[]] ∨ (joined sep b l).splitOn sep = l.map (Nat.toDigits b) := by
  by_cases hnil : l = []
  · subst hnil
    exact .inl ⟨rfl, rfl⟩
  · refine .inr (splitOn_intercalate sep (fun piece hpiece hmem => ?_) (by simpa using hnil))
    obtain ⟨n, -, rfl⟩ := mem_map.mp hpiece
    exact Bool.false_ne_true (hsep.symm.trans (Decimal.isAlphanum_of_mem_toDigits hb hb' hmem))

end Joined

namespace Addr

variable {groups groups' : List Nat} {pieces : List (List Char)} {c : Char} {v v' : Nat}

private theorem string4_inj (h : string4 v = string4 v') : v = v' := by
  have hsplit : ∀ v, (string4 v).splitOn '.' = (fields 8 3 v).map (Nat.toDigits 10) := fun v =>
    (splitOn_joined (by decide) (by decide) (by decide) _).resolve_left fun hnil => by simp [fields] at hnil
  have hpieces := congrArg (splitOn '.') h
  rw [hsplit, hsplit] at hpieces
  exact fields_inj (map_injective_iff.mpr (fun _ _ => Decimal.toDigits_inj) hpieces)

/-! ### Compressed groups -/

private theorem splitOn_groups (groups : List Nat) :
    groups = [] ∧ (joined ':' 16 groups).splitOn ':' = [[]] ∨
      (joined ':' 16 groups).splitOn ':' = groups.map (Nat.toDigits 16) :=
  splitOn_joined (by decide) (by decide) (by decide) groups

private theorem takeWhile_pieces (h : groups = [] ∧ pieces = [[]] ∨ pieces = groups.map (Nat.toDigits 16))
    (rest : List (List Char)) : (pieces ++ [] :: rest).takeWhile (· ≠ []) = groups.map (Nat.toDigits 16) := by
  rcases h with ⟨rfl, rfl⟩ | rfl
  · rfl
  · rw [takeWhile_append_of_pos, takeWhile_cons_of_neg (by simp), append_nil]
    intro piece hpiece
    obtain ⟨n, -, rfl⟩ := mem_map.mp hpiece
    exact decide_eq_true Nat.toDigits_ne_nil

private theorem map_toDigits_inj (h : groups.map (Nat.toDigits 16) = groups'.map (Nat.toDigits 16)) : groups = groups' :=
  map_injective_iff.mpr (Decimal.toDigits_injective (by decide) (by decide)) h

private theorem splitOn_colons (front back : List Char) :
    (front ++ ':' :: ':' :: back).splitOn ':' = front.splitOn ':' ++ [] :: back.splitOn ':' := by
  rw [splitOn_append_cons_self, show ':' :: back = [] ++ ':' :: back from rfl, splitOn_append_cons_self, splitOn_nil]
  rfl

/-- The groups before and after two colons are read back from a text. -/
private theorem colons_inj {back back' : List Nat}
    (h : joined ':' 16 groups ++ ':' :: ':' :: joined ':' 16 back =
      joined ':' 16 groups' ++ ':' :: ':' :: joined ':' 16 back') : groups = groups' ∧ back = back' := by
  have hpieces := congrArg (splitOn ':') h
  rw [splitOn_colons, splitOn_colons] at hpieces
  have hreverse : ∀ gs : List Nat, gs.reverse = [] ∧ ((joined ':' 16 gs).splitOn ':').reverse = [[]] ∨
      ((joined ':' 16 gs).splitOn ':').reverse = gs.reverse.map (Nat.toDigits 16) := by
    intro gs
    rcases splitOn_groups gs with ⟨hnil, hone⟩ | hmap
    · exact .inl ⟨by rw [hnil]; rfl, by rw [hone]; rfl⟩
    · exact .inr (by rw [hmap, map_reverse])
  constructor
  · have hfront := congrArg (takeWhile (· ≠ [])) hpieces
    rw [takeWhile_pieces (splitOn_groups _), takeWhile_pieces (splitOn_groups _)] at hfront
    exact map_toDigits_inj hfront
  · have hback := congrArg (fun l => l.reverse.takeWhile (· ≠ [])) hpieces
    simp only [reverse_append, reverse_cons, append_assoc, singleton_append] at hback
    rw [takeWhile_pieces (hreverse _), takeWhile_pieces (hreverse _)] at hback
    exact reverse_injective (map_toDigits_inj hback)

private theorem joined_ne_colons (groups front back : List Nat) :
    joined ':' 16 groups ≠ joined ':' 16 front ++ ':' :: ':' :: joined ':' 16 back := by
  intro h
  rcases splitOn_groups groups with ⟨rfl, -⟩ | hmap
  · simp [joined] at h
  · have hpieces := congrArg (splitOn ':') h
    rw [splitOn_colons, hmap] at hpieces
    have hempty : [] ∈ groups.map (Nat.toDigits 16) := hpieces ▸ mem_append_right _ mem_cons_self
    obtain ⟨n, -, hn⟩ := mem_map.mp hempty
    exact Nat.toDigits_ne_nil hn

private theorem split_zeroRun (groups : List Nat) (i : Nat) :
    groups = groups.take i ++ (replicate (zeroRun groups i) 0 ++ groups.drop (i + zeroRun groups i)) := by
  have hzeros : (groups.drop i).takeWhile (· = 0) = replicate (zeroRun groups i) 0 :=
    eq_replicate_of_mem fun n hn => of_decide_eq_true (mem_takeWhile_imp (p := fun n => decide (n = 0)) hn)
  have happend := takeWhile_append_dropWhile (p := fun n => decide (n = 0)) (l := groups.drop i)
  have hrest : groups.drop (i + zeroRun groups i) = (groups.drop i).dropWhile (· = 0) := by
    rw [← drop_drop]
    exact (congrArg (drop _) happend.symm).trans (drop_left' rfl)
  rw [hrest, ← hzeros, happend, take_append_drop]

private theorem compressed_inj (hlength : groups.length = groups'.length) (h : compressed groups = compressed groups') :
    groups = groups' := by
  unfold compressed at h
  split at h <;> split at h
  · have hcolons : joined ':' 16 groups ++ ':' :: ':' :: joined ':' 16 [] = joined ':' 16 groups' ++ ':' :: ':' :: joined ':' 16 [] := by
      rw [h]
    exact (colons_inj hcolons).1
  · exact absurd h (joined_ne_colons _ _ _)
  · exact absurd h.symm (joined_ne_colons _ _ _)
  · next _ i _ _ i' _ =>
    -- The fronts and the backs agree, so the runs between them are equally long.
    obtain ⟨hfront, hback⟩ := colons_inj h
    have hsplit := split_zeroRun groups i
    have hsplit' := split_zeroRun groups' i'
    have hrun : zeroRun groups i = zeroRun groups' i' := by
      have hlen := congrArg length hsplit
      have hlen' := congrArg length hsplit'
      rw [length_append, length_append, length_replicate] at hlen hlen'
      rw [hfront, hback] at hlen
      omega
    rw [hsplit, hsplit', hfront, hback, hrun]

/-! ### Texts name their addresses -/

private theorem mem_string4 (h : c ∈ string4 v) : c = '.' ∨ c.isAlphanum := mem_joined (by decide) (by decide) h

private theorem mem_string6 (h : c ∈ string6 v) : c = ':' ∨ c.isAlphanum := by
  have hjoined : ∀ {l}, c ∈ joined ':' 16 l → c = ':' ∨ c.isAlphanum := mem_joined (by decide) (by decide)
  unfold string6 compressed at h
  split at h
  · exact hjoined h
  · simp only [mem_append, mem_cons] at h
    rcases h with hfront | hcolon | hcolon | hback
    · exact hjoined hfront
    · exact .inl hcolon
    · exact .inl hcolon
    · exact hjoined hback

private theorem mem_string {a : Addr} (h : c ∈ a.string) : c = ':' ∨ c = '.' ∨ c.isAlphanum := by
  unfold string at h
  split at h
  · exact .inr (mem_string4 h)
  · split at h
    · rcases mem_append.mp h with hfront | hback
      · have hmapped : "::ffff:".toList.all (fun c => c == ':' || c.isAlphanum) = true := by rfl
        have hc := all_eq_true.mp hmapped c hfront
        rw [Bool.or_eq_true, beq_iff_eq] at hc
        exact hc.imp_right .inr
      · exact .inr (mem_string4 hback)
    · exact (mem_string6 h).imp_right .inr

theorem string_injective : Function.Injective string := by
  have hdot : ∀ v, '.' ∈ string4 v := fun v => by simp [string4, joined, fields, intercalate]
  have hcolon : ∀ v, ':' ∈ string6 v := by
    intro v
    unfold string6 compressed
    split
    · simp [joined, fields, intercalate]
    · simp
  have hno_colon : ∀ v, ':' ∉ string4 v := fun v hc => (mem_string4 hc).elim (by decide) (by decide)
  have hno_dot : ∀ v, '.' ∉ string6 v := fun v hc => (mem_string6 hc).elim (by decide) (by decide)
  -- An address of version 4 has dots alone, a mapped one dots and colons, and any other colons alone.
  rintro ⟨family, v⟩ ⟨family', v'⟩ h
  cases family <;> cases family' <;> simp only [string] at h
  · rw [string4_inj h]
  · split at h
    · exact absurd (h ▸ mem_append_left _ (by decide)) (hno_colon v)
    · exact absurd (h ▸ hcolon v') (hno_colon v)
  · split at h
    · exact absurd (h ▸ mem_append_left _ (by decide)) (hno_colon v')
    · exact absurd (h ▸ hcolon v) (hno_colon v')
  · split at h <;> split at h
    · next hmapped hmapped' =>
      simp only [is4In6, Bool.and_eq_true, decide_eq_true_eq] at hmapped hmapped'
      have hlow := string4_inj (append_cancel_left h)
      rw [← Nat.div_add_mod v (2 ^ 32), ← Nat.div_add_mod v' (2 ^ 32), hmapped.2, hmapped'.2, hlow]
    · exact absurd (h ▸ mem_append_right _ (hdot _)) (hno_dot v')
    · exact absurd (h ▸ mem_append_right _ (hdot _)) (hno_dot v)
    · rw [fields_inj (compressed_inj (by simp [fields]) h)]

end Addr

theorem Prefix.string_injective : Function.Injective Prefix.string := by
  rintro ⟨addr, bits⟩ ⟨addr', bits'⟩ h
  have hslash : ∀ a : Addr, '/' ∉ a.string := fun a hc => by simpa using Addr.mem_string hc
  have hcut := congrArg (Decimal.cut '/') (String.ofList_injective h)
  rw [Decimal.cut_append (hslash addr), Decimal.cut_append (hslash addr')] at hcut
  obtain ⟨haddr, hbits⟩ := Prod.mk.inj hcut
  obtain rfl := Addr.string_injective haddr
  obtain rfl : bits = bits' := Decimal.toDigits_inj (Option.some.inj hbits)
  rfl

theorem Prefix.comma_not_mem_string (p : Prefix) : ',' ∉ p.string.toList := by
  rw [Prefix.string, String.toList_ofList, mem_append, mem_cons, not_or, not_or]
  exact ⟨fun hc => by simpa using Addr.mem_string hc, by decide, Decimal.not_mem_toDigits (by decide) _⟩

end WireGuard

end Pui

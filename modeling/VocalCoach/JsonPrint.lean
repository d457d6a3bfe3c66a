/-
# Printing JSON

A library of its own, over `JsonText`: ways to print a value, each of which is read back.

* A `Style` says what follows a comma and a colon and how a character is escaped, and carries
  the proof that the grammar allows it.
* `parse_print`: what a style prints, blanks after it included, is read as the value printed.
* `ensureAscii` and `escapeHtml` are two styles in use, and `Number.ofInt` is how both write
  whole numbers.
-/
import VocalCoach.JsonText

namespace JsonText

/-! ## Styles -/

/-- A text stands for the character, whatever follows. -/
def Escapes (t : List Char) (c : Char) : Prop :=
  ∃ ps, Written ps t ∧ ∀ rest, join (ps ++ rest) = c :: join rest

/-- A way to print. -/
structure Style where
  afterComma : List Char
  afterColon : List Char
  escape : Char → List Char
  afterComma_blank : Blank afterComma
  afterColon_blank : Blank afterColon
  escape_ok : ∀ c, Escapes (escape c) c

variable (st : Style)

def Style.quote (s : List Char) : List Char := '"' :: (s.flatMap st.escape ++ ['"'])

mutual

def Style.print : Json → List Char
  | .null => ['n', 'u', 'l', 'l']
  | .bool true => ['t', 'r', 'u', 'e']
  | .bool false => ['f', 'a', 'l', 's', 'e']
  | .num n => n.text
  | .str s => st.quote s
  | .arr items => '[' :: (Style.printItems items ++ [']'])
  | .obj members => '{' :: (Style.printMembers members ++ ['}'])

def Style.printItems : List Json → List Char
  | [] => []
  | [v] => Style.print v
  | v :: rest => Style.print v ++ ',' :: (st.afterComma ++ Style.printItems rest)

def Style.printMembers : List (List Char × Json) → List Char
  | [] => []
  | [(key, v)] => st.quote key ++ ':' :: (st.afterColon ++ Style.print v)
  | (key, v) :: rest =>
      st.quote key ++ ':' :: (st.afterColon ++ Style.print v) ++
        ',' :: (st.afterComma ++ Style.printMembers rest)

end

/-! ## What is printed is read -/

theorem Written.append {ps qs : List Piece} {t u : List Char} (h : Written ps t)
    (h' : Written qs u) : Written (ps ++ qs) (t ++ u) := by
  induction h with
  | nil => exact h'
  | plain hc _ ih => exact .plain hc ih
  | short he _ ih => exact .short he ih
  | unit hn _ ih => exact .unit hn ih

/-- Escaped characters one after the other stand for the string. -/
theorem escaped_written (s : List Char) :
    ∃ ps, Written ps (s.flatMap st.escape) ∧ join ps = s := by
  induction s with
  | nil => exact ⟨[], .nil, rfl⟩
  | cons c s ih =>
    obtain ⟨ps, hps, hjoin⟩ := st.escape_ok c
    obtain ⟨qs, hqs, hs⟩ := ih
    exact ⟨ps ++ qs, hps.append hqs, by rw [hjoin, hs]⟩

theorem Style.quoted (s : List Char) : Quoted s (st.quote s) := by
  obtain ⟨ps, hps, hjoin⟩ := escaped_written st s
  exact ⟨ps, _, hps, hjoin, rfl⟩

theorem blank_single : Blank [' '] := fun _ hc => by
  rw [List.mem_singleton.mp hc]
  rfl

theorem blank_nil : Blank [] := fun _ hc => by cases hc

theorem Blank.append {ws ws' : List Char} (h : Blank ws) (h' : Blank ws') : Blank (ws ++ ws') :=
  fun c hc => (List.mem_append.mp hc).elim (h c) (h' c)

/-- Blanks may come before the first entry. -/
theorem Sequence.after {α : Type} {Entry : α → List Char → Prop} {as : List α}
    {ws ts : List Char} (hws : Blank ws) (h : Sequence Entry as ts) :
    Sequence Entry as (ws ++ ts) := by
  cases h with
  | one hws' h hws'' =>
    rw [← List.append_assoc]
    exact .one (hws.append hws') h hws''
  | cons hws' h hws'' hrest =>
    rw [← List.append_assoc]
    exact .cons (hws.append hws') h hws'' hrest

/-- One entry without blanks. -/
theorem Sequence.single {α : Type} {Entry : α → List Char → Prop} {a : α} {t : List Char}
    (h : Entry a t) : Sequence Entry [a] t := by
  simpa using Sequence.one blank_nil h blank_nil

theorem Sequence.followed {α : Type} {Entry : α → List Char → Prop} {a : α} {as : List α}
    {t ts : List Char} (h : Entry a t) (hrest : Sequence Entry as ts) :
    Sequence Entry (a :: as) (t ++ ',' :: ts) := by
  simpa using Sequence.cons blank_nil h blank_nil hrest

theorem Style.member {key : List Char} {v : Json} (h : Denotes v (st.print v)) :
    Member Denotes (key, v) (st.quote key ++ ':' :: (st.afterColon ++ st.print v)) := by
  simpa using Member.mk (st.quoted key) blank_nil st.afterColon_blank h

mutual

/-- **What a style prints denotes the value printed.** -/
theorem Style.denotes : (v : Json) → Denotes v (st.print v)
  | .null => .null
  | .bool true => .yes
  | .bool false => .no
  | .num n => .num n
  | .str s => .str (st.quoted s)
  | .arr items =>
      match items, Style.items_sequence items with
      | [], _ => .emptyArr blank_nil
      | _ :: _, h => .arr (h (List.cons_ne_nil _ _))
  | .obj members =>
      match members, Style.members_sequence members with
      | [], _ => .emptyObj blank_nil
      | _ :: _, h => .obj (h (List.cons_ne_nil _ _))

theorem Style.items_sequence : (items : List Json) → items ≠ [] →
    Sequence Denotes items (st.printItems items)
  | [], h => absurd rfl h
  | [v], _ => .single (Style.denotes v)
  | v :: w :: items, _ =>
      .followed (Style.denotes v)
        (.after st.afterComma_blank (Style.items_sequence (w :: items) (List.cons_ne_nil _ _)))

theorem Style.members_sequence : (members : List (List Char × Json)) → members ≠ [] →
    Sequence (Member Denotes) members (st.printMembers members)
  | [], h => absurd rfl h
  | [(_, v)], _ => .single (st.member (Style.denotes v))
  | (_, v) :: m :: members, _ =>
      .followed (st.member (Style.denotes v))
        (.after st.afterComma_blank (Style.members_sequence (m :: members) (List.cons_ne_nil _ _)))

end

/-- **What a style prints is read back**, blanks after it included. -/
theorem parse_print (v : Json) {ws : List Char} (hws : Blank ws) :
    parse (st.print v ++ ws) = some v :=
  parse_eq_some_iff.mpr ⟨[], st.print v, ws, blank_nil, st.denotes v, hws, rfl⟩

/-! ## Escapes -/

/-- The character that a backslash goes before instead, if there is one. -/
def shorthand (c : Char) : Option Char :=
  if c = '"' then some '"'
  else if c = '\\' then some '\\'
  else if c = Char.ofNat 8 then some 'b'
  else if c = Char.ofNat 12 then some 'f'
  else if c = '\n' then some 'n'
  else if c = '\r' then some 'r'
  else if c = '\t' then some 't'
  else none

/-- The units of a character, each behind `\u`. -/
def unicodeEscape (c : Char) : List Char :=
  if c.toNat < 0x10000 then '\\' :: 'u' :: hex4 c.toNat
  else
    '\\' :: 'u' :: (hex4 (0xD800 + (c.toNat - 0x10000) / 0x400) ++
      '\\' :: 'u' :: hex4 (0xDC00 + (c.toNat - 0x10000) % 0x400))

theorem plain_escapes {c : Char} (h : isPlain c = true) : Escapes [c] c :=
  ⟨[.char c], .plain h .nil, fun _ => rfl⟩

theorem shortEscape_shorthand {c e : Char} (h : shorthand c = some e) :
    shortEscape e = some c := by
  unfold shorthand at h
  split_ifs at h <;> cases h <;> subst_vars <;> rfl

theorem shorthand_escapes {c e : Char} (h : shorthand c = some e) : Escapes ['\\', e] c :=
  ⟨[.char c], .short (shortEscape_shorthand h) .nil, fun _ => rfl⟩

theorem hexUnit_hex4 {n : ℕ} (h : n < 0x10000) :
    hexUnit (n / 4096 % 16).digitChar (n / 256 % 16).digitChar (n / 16 % 16).digitChar
      (n % 16).digitChar = some n := by
  have hdigit : ∀ k : ℕ, hexDigit (k % 16).digitChar = some (k % 16) :=
    fun k => hexDigit_digitChar (Nat.mod_lt _ (by decide))
  unfold hexUnit
  simp only [hdigit, Option.bind_eq_bind, Option.bind_some, Option.pure_def, Option.some.injEq]
  omega

theorem written_unit {n : ℕ} (h : n < 0x10000) {ps : List Piece} {t : List Char}
    (ht : Written ps t) : Written (.unit n :: ps) ('\\' :: 'u' :: (hex4 n ++ t)) :=
  .unit (hexUnit_hex4 h) ht

/-- A character is no half of a pair. -/
theorem charOfUnit_toNat (c : Char) : charOfUnit c.toNat = c := by
  have hvalid : c.toNat < 0xD800 ∨ 0xDFFF < c.toNat := by
    rcases c.valid with h | ⟨h, -⟩
    · exact Or.inl h
    · exact Or.inr h
  have hwhole : (isHigh c.toNat || isLow c.toNat) = false := by
    simp only [isHigh, isLow, Bool.or_eq_false_iff, Bool.and_eq_false_iff, decide_eq_false_iff_not]
    omega
  rw [charOfUnit, hwhole]
  exact Char.ofNat_toNat c

theorem join_unit (c : Char) (rest : List Piece) : join (.unit c.toNat :: rest) = c :: join rest := by
  have hlow : isHigh c.toNat = false := by
    rcases c.valid with h | ⟨h, -⟩
    · simp only [isHigh, Bool.and_eq_false_iff, decide_eq_false_iff_not]
      left
      show ¬ 0xD800 ≤ c.toNat
      exact Nat.not_le.mpr h
    · simp only [isHigh, Bool.and_eq_false_iff, decide_eq_false_iff_not]
      right
      show ¬ c.toNat < 0xDC00
      have : 0xDFFF < c.toNat := h
      omega
  cases rest with
  | nil =>
    show [charOfUnit c.toNat] = [c]
    rw [charOfUnit_toNat]
  | cons p rest =>
    cases p with
    | char d =>
      show charOfUnit c.toNat :: d :: join rest = c :: d :: join rest
      rw [charOfUnit_toNat]
    | unit n => rw [join, hlow, charOfUnit_toNat]; rfl

theorem unicodeEscape_escapes (c : Char) : Escapes (unicodeEscape c) c := by
  unfold unicodeEscape
  split_ifs with hunit
  · refine ⟨[.unit c.toNat], ?_, fun rest => join_unit c rest⟩
    simpa using written_unit hunit .nil
  · -- two halves
    have hmax : c.toNat < 0x110000 := by
      rcases c.valid with h | ⟨-, h⟩
      · have : c.toNat < 0xD800 := h
        omega
      · exact h
    set m := c.toNat - 0x10000 with hm
    have hhigh : m / 0x400 < 0x400 := by omega
    refine ⟨[.unit (0xD800 + m / 0x400), .unit (0xDC00 + m % 0x400)], ?_, fun rest => ?_⟩
    · have hlast : Written [.unit (0xDC00 + m % 0x400)]
          ('\\' :: 'u' :: (hex4 (0xDC00 + m % 0x400) ++ [])) := written_unit (by omega) .nil
      rw [List.append_nil] at hlast
      exact written_unit (by omega) hlast
    · have hpair : (isHigh (0xD800 + m / 0x400) && isLow (0xDC00 + m % 0x400)) = true := by
        simp only [isHigh, isLow, Bool.and_eq_true, decide_eq_true_eq]
        omega
      have hvalue : 0x10000 + (0xD800 + m / 0x400 - 0xD800) * 0x400 +
          (0xDC00 + m % 0x400 - 0xDC00) = c.toNat := by omega
      show join (.unit _ :: .unit _ :: rest) = _
      rw [join, if_pos hpair, hvalue, Char.ofNat_toNat]

/-- ASCII only. -/
def asciiEscape (c : Char) : List Char :=
  match shorthand c with
  | some e => ['\\', e]
  | none => if ' ' ≤ c ∧ c ≤ '~' then [c] else unicodeEscape c

/-- Control characters, what HTML gives a meaning to, and two line separators. -/
def htmlEscape (c : Char) : List Char :=
  match shorthand c with
  | some e => ['\\', e]
  | none =>
      if c.toNat < 0x20 ∨ c = '<' ∨ c = '>' ∨ c = '&' ∨ c.toNat = 0x2028 ∨ c.toNat = 0x2029 then
        unicodeEscape c
      else [c]

theorem isPlain_of_shorthand {c : Char} (h : shorthand c = none) (hc : 0x20 ≤ c.toNat) :
    isPlain c = true := by
  have hquote : c ≠ '"' := by rintro rfl; exact absurd h (by decide)
  have hslash : c ≠ '\\' := by rintro rfl; exact absurd h (by decide)
  simp [isPlain, hquote, hslash, hc]

theorem asciiEscape_escapes (c : Char) : Escapes (asciiEscape c) c := by
  unfold asciiEscape
  split
  next e he => exact shorthand_escapes he
  next hnone =>
    split_ifs with hrange
    · exact plain_escapes (isPlain_of_shorthand hnone hrange.1)
    · exact unicodeEscape_escapes c

theorem htmlEscape_escapes (c : Char) : Escapes (htmlEscape c) c := by
  unfold htmlEscape
  split
  next e he => exact shorthand_escapes he
  next hnone =>
    split_ifs with hescaped
    · exact unicodeEscape_escapes c
    · exact plain_escapes (isPlain_of_shorthand hnone (by omega))

/-- Blanks after commas and colons, ASCII only. -/
def ensureAscii : Style where
  afterComma := [' ']
  afterColon := [' ']
  escape := asciiEscape
  afterComma_blank := blank_single
  afterColon_blank := blank_single
  escape_ok := asciiEscape_escapes

/-- No blanks, safe inside HTML. -/
def escapeHtml : Style where
  afterComma := []
  afterColon := []
  escape := htmlEscape
  afterComma_blank := blank_nil
  afterColon_blank := blank_nil
  escape_ok := htmlEscape_escapes

/-! ## Whole numbers -/

/-- A whole number in decimal. -/
def decimal (i : ℤ) : List Char :=
  if i < 0 then '-' :: Nat.toDigits 10 i.natAbs else Nat.toDigits 10 i.natAbs

/-- Read a whole number: an optional minus and digits. -/
def parseInt : List Char → Option ℤ
  | '-' :: rest =>
      if !rest.isEmpty && rest.all Char.isDigit then some (-(Nat.ofDigitChars 10 rest 0 : ℤ))
      else none
  | t =>
      if !t.isEmpty && t.all Char.isDigit then some (Nat.ofDigitChars 10 t 0 : ℤ) else none

theorem toDigits_all (n : ℕ) : (Nat.toDigits 10 n).all Char.isDigit = true :=
  List.all_eq_true.mpr fun _ hc => Nat.isDigit_of_mem_toDigits (by decide) (by decide) hc

/-- The digits of a number other than 0 begin with none. -/
theorem toDigits_head {n : ℕ} (hn : 0 < n) :
    ∃ c rest, Nat.toDigits 10 n = c :: rest ∧ c ≠ '0' := by
  induction n using Nat.strong_induction_on with
  | _ n ih =>
    rw [Nat.toDigits_eq_if (by decide)]
    split_ifs with hsmall
    · have hdigit : ∀ k < 10, 0 < k → k.digitChar ≠ '0' := by decide
      exact ⟨_, [], rfl, hdigit n hsmall hn⟩
    · obtain ⟨c, rest, hdigits, hc⟩ := ih (n / 10) (by omega) (by omega)
      exact ⟨c, rest ++ [(n % 10).digitChar], by rw [hdigits]; rfl, hc⟩

theorem isUnsigned_toDigits (n : ℕ) : isUnsigned (Nat.toDigits 10 n) = true := by
  rcases Nat.eq_zero_or_pos n with rfl | hn
  · rfl
  · have hall := toDigits_all n
    obtain ⟨c, rest, hdigits, hc⟩ := toDigits_head hn
    rw [hdigits, List.all_cons, Bool.and_eq_true] at hall
    rw [hdigits, isUnsigned, if_neg hc, hall.1]
    have hdrop : rest.dropWhile Char.isDigit = [] :=
      List.dropWhile_eq_nil_iff.mpr (List.all_eq_true.mp hall.2)
    rw [hdrop]
    rfl

theorem toDigits_no_minus {n : ℕ} {rest : List Char} : Nat.toDigits 10 n ≠ '-' :: rest := by
  intro h
  have hdigit : Char.isDigit '-' = true :=
    List.all_eq_true.mp (toDigits_all n) '-' (by rw [h]; exact List.mem_cons_self)
  exact absurd hdigit (by decide)

theorem isNumber_decimal (i : ℤ) : isNumber (decimal i) = true := by
  unfold decimal
  split_ifs
  · exact isUnsigned_toDigits _
  · unfold isNumber
    split
    next h => exact absurd h toDigits_no_minus
    next => exact isUnsigned_toDigits _

def Number.ofInt (i : ℤ) : Number := ⟨decimal i, isNumber_decimal i⟩

/-- **A whole number is read back from its decimal digits.** -/
theorem parseInt_decimal (i : ℤ) : parseInt (decimal i) = some i := by
  have hdigits : ∀ n : ℕ, (!(Nat.toDigits 10 n).isEmpty &&
      (Nat.toDigits 10 n).all Char.isDigit) = true := by
    intro n
    rw [toDigits_all, Bool.and_true, Bool.not_eq_true', List.isEmpty_eq_false_iff]
    exact Nat.toDigits_ne_nil
  unfold decimal
  split_ifs with hneg
  · rw [parseInt, if_pos (hdigits _), Nat.ofDigitChars_ten_toDigits]
    exact congrArg some (by omega)
  · unfold parseInt
    split
    next h => exact absurd h toDigits_no_minus
    next =>
      rw [if_pos (hdigits _), Nat.ofDigitChars_ten_toDigits]
      exact congrArg some (by omega)

end JsonText

/-
# JSON as text

A library of its own: what a JSON text denotes, and a parser.

* `Denotes v t`: the text `t`, without blanks around it, is one way to write the value `v`.
  Numbers stand for the text they are written as.
* `parse` reads a text.  It accepts exactly the texts of the grammar, with the value they
  denote (`parse_eq_some_iff`).

A string is read in two steps, first the pieces it is written with and then the characters they
stand for: two `\u` escapes may be the two halves of one character.
-/
import Mathlib.Data.List.Basic
import Mathlib.Data.List.TakeWhile
import Mathlib.Tactic.Common

namespace JsonText

/-! ## Characters -/

def isBlank (c : Char) : Bool := c = ' ' || c = '\t' || c = '\n' || c = '\r'

/-- Blanks only. -/
def Blank (t : List Char) : Prop := ∀ c ∈ t, isBlank c = true

/-- A character that stands for itself inside a string. -/
def isPlain (c : Char) : Bool := c ≠ '"' && c ≠ '\\' && 0x20 ≤ c.toNat

/-- What a backslash and this character stand for. -/
def shortEscape (e : Char) : Option Char :=
  if e = '"' then some '"'
  else if e = '\\' then some '\\'
  else if e = '/' then some '/'
  else if e = 'b' then some (Char.ofNat 8)
  else if e = 'f' then some (Char.ofNat 12)
  else if e = 'n' then some '\n'
  else if e = 'r' then some '\r'
  else if e = 't' then some '\t'
  else none

def hexDigit (c : Char) : Option ℕ :=
  if '0' ≤ c ∧ c ≤ '9' then some (c.toNat - '0'.toNat)
  else if 'a' ≤ c ∧ c ≤ 'f' then some (c.toNat - 'a'.toNat + 10)
  else if 'A' ≤ c ∧ c ≤ 'F' then some (c.toNat - 'A'.toNat + 10)
  else none

/-- The value of four hexadecimal digits. -/
def hexUnit (a b c d : Char) : Option ℕ := do
  let a ← hexDigit a
  let b ← hexDigit b
  let c ← hexDigit c
  let d ← hexDigit d
  pure (((a * 16 + b) * 16 + c) * 16 + d)

/-- Four hexadecimal digits, in lower case. -/
def hex4 (n : ℕ) : List Char :=
  [(n / 4096 % 16).digitChar, (n / 256 % 16).digitChar, (n / 16 % 16).digitChar,
    (n % 16).digitChar]

theorem hexDigit_digitChar {k : ℕ} (h : k < 16) : hexDigit k.digitChar = some k := by
  revert k
  decide

/-! ## Strings -/

/-- What a string is written with: a character, plain or by a short escape, or a unit of
sixteen bits. -/
inductive Piece
  | char (c : Char)
  | unit (n : ℕ)
  deriving DecidableEq, Repr

/-- The first half of a pair of surrogates. -/
def isHigh (n : ℕ) : Bool := 0xD800 ≤ n && n < 0xDC00

/-- The second one. -/
def isLow (n : ℕ) : Bool := 0xDC00 ≤ n && n < 0xE000

/-- The character of a unit on its own; half of a pair is none. -/
def charOfUnit (n : ℕ) : Char :=
  if isHigh n || isLow n then Char.ofNat 0xFFFD else Char.ofNat n

/-- The characters that pieces stand for. -/
def join : List Piece → List Char
  | [] => []
  | .char c :: rest => c :: join rest
  | [.unit n] => [charOfUnit n]
  | .unit n :: .char c :: rest => charOfUnit n :: c :: join rest
  | .unit high :: .unit low :: rest =>
      if isHigh high && isLow low then
        Char.ofNat (0x10000 + (high - 0xD800) * 0x400 + (low - 0xDC00)) :: join rest
      else charOfUnit high :: join (.unit low :: rest)

/-- The texts of pieces. -/
inductive Written : List Piece → List Char → Prop
  | nil : Written [] []
  | plain {c ps t} (h : isPlain c = true) : Written ps t → Written (.char c :: ps) (c :: t)
  | short {e c ps t} (h : shortEscape e = some c) :
      Written ps t → Written (.char c :: ps) ('\\' :: e :: t)
  | unit {a b c d n ps t} (h : hexUnit a b c d = some n) :
      Written ps t → Written (.unit n :: ps) ('\\' :: 'u' :: a :: b :: c :: d :: t)

/-- The texts of a string, quotes included. -/
def Quoted (s t : List Char) : Prop :=
  ∃ ps body, Written ps body ∧ join ps = s ∧ t = '"' :: (body ++ ['"'])

/-- Read pieces up to the closing quote. -/
def pieces : List Char → Option (List Piece × List Char)
  | [] => none
  | '"' :: rest => some ([], rest)
  | '\\' :: 'u' :: a :: b :: c :: d :: rest =>
      match hexUnit a b c d with
      | some n => (pieces rest).map fun p => (.unit n :: p.1, p.2)
      | none => none
  | '\\' :: e :: rest =>
      match shortEscape e with
      | some c => (pieces rest).map fun p => (.char c :: p.1, p.2)
      | none => none
  | c :: rest =>
      if isPlain c then (pieces rest).map fun p => (.char c :: p.1, p.2) else none

theorem pieces_plain {c : Char} (h : isPlain c = true) (rest : List Char) :
    pieces (c :: rest) = (pieces rest).map fun p => (.char c :: p.1, p.2) := by
  have hquote : c ≠ '"' := by rintro rfl; exact absurd h (by decide)
  have hslash : c ≠ '\\' := by rintro rfl; exact absurd h (by decide)
  rw [pieces.eq_def]
  split <;> simp_all

theorem pieces_short {e c : Char} (h : shortEscape e = some c) (rest : List Char) :
    pieces ('\\' :: e :: rest) = (pieces rest).map fun p => (.char c :: p.1, p.2) := by
  have hunit : e ≠ 'u' := by
    rintro rfl
    have hnone : shortEscape 'u' = none := by decide
    rw [hnone] at h
    cases h
  rw [pieces.eq_def]
  split
  next heq => cases heq
  next heq => cases heq
  next heq => exact absurd (List.cons.inj (List.cons.inj heq).2).1 hunit
  next heq =>
    obtain ⟨rfl, rfl⟩ := List.cons.inj (List.cons.inj heq).2
    rw [h]
  next hne heq =>
    obtain ⟨hc, hrest⟩ := List.cons.inj heq
    exact absurd hrest.symm (hne _ _ hc.symm)

/-- **Reading pieces** takes a text of theirs off the front, and the quote after it. -/
theorem pieces_of_written {ps : List Piece} {t : List Char} (h : Written ps t)
    (rest : List Char) : pieces (t ++ '"' :: rest) = some (ps, rest) := by
  induction h with
  | nil => rfl
  | plain hc _ ih => rw [List.cons_append, pieces_plain hc, ih]; rfl
  | short hc _ ih => rw [List.cons_append, List.cons_append, pieces_short hc, ih]; rfl
  | unit hn _ ih =>
    simp only [List.cons_append]
    rw [pieces, hn]
    dsimp only
    rw [ih]
    rfl

theorem written_of_pieces {s : List Char} {ps : List Piece} {rest : List Char}
    (h : pieces s = some (ps, rest)) : ∃ t, s = t ++ '"' :: rest ∧ Written ps t := by
  fun_induction pieces s generalizing ps with
  | case1 => cases h
  | case2 rest' =>
    cases h
    exact ⟨[], rfl, .nil⟩
  | case3 a b c d rest' n hn ih =>
    obtain ⟨⟨ps', rest''⟩, hps, heq⟩ := Option.map_eq_some_iff.mp h
    cases heq
    obtain ⟨t, rfl, ht⟩ := ih hps
    exact ⟨_, rfl, .unit hn ht⟩
  | case4 => cases h
  | case5 e rest' _ c hc ih =>
    obtain ⟨⟨ps', rest''⟩, hps, heq⟩ := Option.map_eq_some_iff.mp h
    cases heq
    obtain ⟨t, rfl, ht⟩ := ih hps
    exact ⟨_, rfl, .short hc ht⟩
  | case6 => cases h
  | case7 c rest' _ _ _ hc ih =>
    obtain ⟨⟨ps', rest''⟩, hps, heq⟩ := Option.map_eq_some_iff.mp h
    cases heq
    obtain ⟨t, rfl, ht⟩ := ih hps
    exact ⟨_, rfl, .plain hc ht⟩
  | case8 => cases h

/-! ## Numbers -/

/-- A character that occurs in numbers. -/
def isNumberChar (c : Char) : Bool :=
  c.isDigit || c = '-' || c = '+' || c = '.' || c = 'e' || c = 'E'

/-- Without a sign. -/
def dropSign : List Char → List Char
  | c :: rest => if c = '+' || c = '-' then rest else c :: rest
  | [] => []

/-- An exponent or nothing. -/
def isExponent : List Char → Bool
  | [] => true
  | e :: rest =>
      (e = 'e' || e = 'E') && !(dropSign rest).isEmpty && (dropSign rest).all Char.isDigit

/-- A fraction or nothing, then an exponent or nothing. -/
def isFraction (t : List Char) : Bool :=
  match t with
  | '.' :: c :: rest => c.isDigit && isExponent (rest.dropWhile Char.isDigit)
  | t => isExponent t

/-- Digits without a leading zero, then what may follow. -/
def isUnsigned : List Char → Bool
  | [] => false
  | c :: rest =>
      if c = '0' then isFraction rest
      else c.isDigit && isFraction (rest.dropWhile Char.isDigit)

def isNumber : List Char → Bool
  | '-' :: rest => isUnsigned rest
  | t => isUnsigned t

/-- A number, as the text it is written as. -/
structure Number where
  text : List Char
  ok : isNumber text = true
  deriving DecidableEq, Repr

theorem isNumberChar_of_isDigit {c : Char} (h : c.isDigit = true) : isNumberChar c = true := by
  simp [isNumberChar, h]

theorem all_of_dropWhile {t : List Char} (h : (t.dropWhile Char.isDigit).all isNumberChar = true) :
    t.all isNumberChar = true := by
  induction t with
  | nil => rfl
  | cons c t ih =>
    rw [List.dropWhile_cons] at h
    split_ifs at h with hc
    · rw [List.all_cons, isNumberChar_of_isDigit hc, ih h]
      rfl
    · exact h

theorem isExponent_chars {t : List Char} (h : isExponent t = true) : t.all isNumberChar = true := by
  cases t with
  | nil => rfl
  | cons e rest =>
    simp only [isExponent, Bool.and_eq_true, Bool.or_eq_true, decide_eq_true_eq] at h
    obtain ⟨⟨he, -⟩, hrest⟩ := h
    have hdigits : ∀ u : List Char, u.all Char.isDigit = true → u.all isNumberChar = true := by
      intro u hu
      rw [List.all_eq_true] at hu ⊢
      exact fun c hc => isNumberChar_of_isDigit (hu c hc)
    have hall : rest.all isNumberChar = true := by
      cases rest with
      | nil => rfl
      | cons c rest =>
        rw [dropSign] at hrest
        split_ifs at hrest with hsign
        · rw [List.all_cons, hdigits _ hrest, Bool.and_true]
          rcases (by simpa using hsign : c = '+' ∨ c = '-') with rfl | rfl <;> rfl
        · exact hdigits _ hrest
    rw [List.all_cons, hall, Bool.and_true]
    rcases he with rfl | rfl <;> rfl

theorem isFraction_chars {t : List Char} (h : isFraction t = true) : t.all isNumberChar = true := by
  unfold isFraction at h
  split at h
  next c rest =>
    obtain ⟨hc, hrest⟩ := Bool.and_eq_true_iff.mp h
    rw [List.all_cons, List.all_cons, isNumberChar_of_isDigit hc,
      all_of_dropWhile (isExponent_chars hrest)]
    rfl
  next => exact isExponent_chars h

theorem isUnsigned_chars {t : List Char} (h : isUnsigned t = true) :
    t.all isNumberChar = true ∧ ∃ c rest, t = c :: rest ∧ c.isDigit = true := by
  cases t with
  | nil => cases h
  | cons c rest =>
    rw [isUnsigned] at h
    split_ifs at h with hzero
    · subst hzero
      exact ⟨by rw [List.all_cons, isFraction_chars h]; rfl, _, _, rfl, rfl⟩
    · obtain ⟨hc, hrest⟩ := Bool.and_eq_true_iff.mp h
      refine ⟨?_, c, rest, rfl, hc⟩
      rw [List.all_cons, isNumberChar_of_isDigit hc, all_of_dropWhile (isFraction_chars hrest)]
      rfl

/-- The characters of a number, the first of them a sign or a digit. -/
theorem Number.chars (n : Number) : n.text.all isNumberChar = true ∧
    ∃ c rest, n.text = c :: rest ∧ (c = '-' ∨ c.isDigit = true) := by
  obtain ⟨text, ok⟩ := n
  dsimp only
  unfold isNumber at ok
  split at ok
  next rest =>
    refine ⟨?_, _, _, rfl, Or.inl rfl⟩
    rw [List.all_cons, (isUnsigned_chars ok).1]
    rfl
  next =>
    obtain ⟨hall, c, rest, htext, hc⟩ := isUnsigned_chars ok
    exact ⟨hall, c, rest, htext, Or.inr hc⟩

/-! ## Values -/

inductive Json
  | null
  | bool (b : Bool)
  | num (n : Number)
  | str (s : List Char)
  | arr (items : List Json)
  | obj (members : List (List Char × Json))

mutual

/-- How deep arrays and objects lie inside each other. -/
def Json.depth : Json → ℕ
  | .arr items => Json.depthItems items + 1
  | .obj members => Json.depthMembers members + 1
  | _ => 0

def Json.depthItems : List Json → ℕ
  | [] => 0
  | v :: rest => max (Json.depth v) (Json.depthItems rest)

def Json.depthMembers : List (List Char × Json) → ℕ
  | [] => 0
  | (_, v) :: rest => max (Json.depth v) (Json.depthMembers rest)

end

/-- Entries with commas between them, and blanks around each. -/
inductive Sequence {α : Type} (Entry : α → List Char → Prop) : List α → List Char → Prop
  | one {a t ws ws'} (hws : Blank ws) (h : Entry a t) (hws' : Blank ws') :
      Sequence Entry [a] (ws ++ (t ++ ws'))
  | cons {a t ws ws' rest ts} (hws : Blank ws) (h : Entry a t) (hws' : Blank ws') :
      Sequence Entry rest ts → Sequence Entry (a :: rest) (ws ++ (t ++ (ws' ++ ',' :: ts)))

/-- A key, a colon and a value. -/
inductive Member (Value : Json → List Char → Prop) : List Char × Json → List Char → Prop
  | mk {key k ws ws' v t} (hk : Quoted key k) (hws : Blank ws) (hws' : Blank ws')
      (h : Value v t) : Member Value (key, v) (k ++ (ws ++ ':' :: (ws' ++ t)))

/-- **What a text denotes.** -/
inductive Denotes : Json → List Char → Prop
  | null : Denotes .null ['n', 'u', 'l', 'l']
  | yes : Denotes (.bool true) ['t', 'r', 'u', 'e']
  | no : Denotes (.bool false) ['f', 'a', 'l', 's', 'e']
  | num (n : Number) : Denotes (.num n) n.text
  | str {s t} (h : Quoted s t) : Denotes (.str s) t
  | emptyArr {ws} (hws : Blank ws) : Denotes (.arr []) ('[' :: (ws ++ [']']))
  | arr {items ts} (h : Sequence Denotes items ts) : Denotes (.arr items) ('[' :: (ts ++ [']']))
  | emptyObj {ws} (hws : Blank ws) : Denotes (.obj []) ('{' :: (ws ++ ['}']))
  | obj {members ts} (h : Sequence (Member Denotes) members ts) :
      Denotes (.obj members) ('{' :: (ts ++ ['}']))

/-- A whole text, blanks around the value included. -/
def Text (v : Json) (s : List Char) : Prop :=
  ∃ ws t ws', Blank ws ∧ Denotes v t ∧ Blank ws' ∧ s = ws ++ (t ++ ws')

/-! ## The parser -/

/-- Read entries up to `close`. -/
def sequence {α : Type} (entry : List Char → Option (α × List Char)) (close : Char) :
    ℕ → List Char → Option (List α × List Char)
  | 0, _ => none
  | fuel + 1, s =>
      match entry (s.dropWhile isBlank) with
      | none => none
      | some (a, s) =>
          match s.dropWhile isBlank with
          | [] => none
          | c :: rest =>
              if c = close then some ([a], rest)
              else if c = ',' then
                (sequence entry close fuel rest).map fun p => (a :: p.1, p.2)
              else none

/-- Read a key, a colon and a value. -/
def member (value : List Char → Option (Json × List Char)) (s : List Char) :
    Option ((List Char × Json) × List Char) :=
  match s with
  | '"' :: s =>
      match pieces s with
      | none => none
      | some (ps, s) =>
          match s.dropWhile isBlank with
          | ':' :: s => (value (s.dropWhile isBlank)).map fun p => ((join ps, p.1), p.2)
          | _ => none
  | _ => none

/-- Read a number: as many of its characters as there are. -/
def number (s : List Char) : Option (Json × List Char) :=
  if h : isNumber (s.takeWhile isNumberChar) = true then
    some (.num ⟨s.takeWhile isNumberChar, h⟩, s.dropWhile isNumberChar)
  else none

/-- Read a value. -/
def value : ℕ → List Char → Option (Json × List Char)
  | 0, _ => none
  | fuel + 1, s =>
      match s with
      | '"' :: rest => (pieces rest).map fun p => (.str (join p.1), p.2)
      | '[' :: rest =>
          match rest.dropWhile isBlank with
          | ']' :: rest => some (.arr [], rest)
          | _ => (sequence (value fuel) ']' rest.length rest).map fun p => (.arr p.1, p.2)
      | '{' :: rest =>
          match rest.dropWhile isBlank with
          | '}' :: rest => some (.obj [], rest)
          | _ => (sequence (member (value fuel)) '}' rest.length rest).map fun p => (.obj p.1, p.2)
      | 'n' :: 'u' :: 'l' :: 'l' :: rest => some (.null, rest)
      | 't' :: 'r' :: 'u' :: 'e' :: rest => some (.bool true, rest)
      | 'f' :: 'a' :: 'l' :: 's' :: 'e' :: rest => some (.bool false, rest)
      | s => number s

/-- Read a whole text. -/
def parse (s : List Char) : Option Json :=
  match value (s.length + 1) (s.dropWhile isBlank) with
  | none => none
  | some (v, rest) => if rest.all isBlank then some v else none

/-! ## What is read is denoted -/

theorem exists_blank (s : List Char) : ∃ ws, Blank ws ∧ s = ws ++ s.dropWhile isBlank :=
  ⟨s.takeWhile isBlank, fun _ hc => List.mem_takeWhile_imp hc, List.takeWhile_append_dropWhile.symm⟩

theorem sequence_sound {α : Type} {Entry : α → List Char → Prop}
    {entry : List Char → Option (α × List Char)} {close : Char}
    (hentry : ∀ s a rest, entry s = some (a, rest) → ∃ t, s = t ++ rest ∧ Entry a t) {fuel : ℕ}
    {s : List Char} {as : List α} {rest : List Char}
    (h : sequence entry close fuel s = some (as, rest)) :
    ∃ ts, s = ts ++ close :: rest ∧ Sequence Entry as ts := by
  induction fuel generalizing s as with
  | zero => cases h
  | succ fuel ih =>
    obtain ⟨ws, hws, hs⟩ := exists_blank s
    rw [sequence] at h
    split at h
    · cases h
    next a s' ha =>
      obtain ⟨t, ht, hentered⟩ := hentry _ _ _ ha
      obtain ⟨ws', hws', hs'⟩ := exists_blank s'
      rw [ht] at hs
      split at h
      · cases h
      next c rest' hc =>
        rw [hc] at hs'
        split_ifs at h with hclose hcomma
        · obtain ⟨rfl, rfl⟩ := Prod.mk.inj (Option.some.inj h)
          subst hclose
          exact ⟨ws ++ (t ++ ws'), by rw [hs, hs']; simp, .one hws hentered hws'⟩
        · obtain ⟨⟨as', rest''⟩, hrest, heq⟩ := Option.map_eq_some_iff.mp h
          obtain ⟨rfl, rfl⟩ := Prod.mk.inj heq
          obtain ⟨ts, hts, hsequence⟩ := ih hrest
          subst hcomma
          exact ⟨ws ++ (t ++ (ws' ++ ',' :: ts)), by rw [hs, hs', hts]; simp,
            .cons hws hentered hws' hsequence⟩

theorem member_sound {Value : Json → List Char → Prop}
    {value : List Char → Option (Json × List Char)}
    (hvalue : ∀ s v rest, value s = some (v, rest) → ∃ t, s = t ++ rest ∧ Value v t)
    {s : List Char} {m : List Char × Json} {rest : List Char}
    (h : member value s = some (m, rest)) : ∃ t, s = t ++ rest ∧ Member Value m t := by
  unfold member at h
  split at h
  next s =>
    split at h
    · cases h
    next ps s' hps =>
      obtain ⟨body, rfl, hwritten⟩ := written_of_pieces hps
      obtain ⟨ws, hws, hs'⟩ := exists_blank s'
      split at h
      next s'' hcolon =>
        obtain ⟨⟨v, rest'⟩, hv, heq⟩ := Option.map_eq_some_iff.mp h
        obtain ⟨rfl, rfl⟩ := Prod.mk.inj heq
        obtain ⟨ws', hws', hs''⟩ := exists_blank s''
        obtain ⟨t, ht, hdenotes⟩ := hvalue _ _ _ hv
        rw [hcolon] at hs'
        rw [ht] at hs''
        refine ⟨_, ?_, .mk ⟨ps, body, hwritten, rfl, rfl⟩ hws hws' hdenotes⟩
        rw [hs', hs'']
        simp
      · cases h
  · cases h

theorem number_sound {s : List Char} {v : Json} {rest : List Char}
    (h : number s = some (v, rest)) : ∃ t, s = t ++ rest ∧ Denotes v t := by
  unfold number at h
  split_ifs at h with hnumber
  obtain ⟨rfl, rfl⟩ := Prod.mk.inj (Option.some.inj h)
  exact ⟨_, List.takeWhile_append_dropWhile.symm, .num ⟨_, hnumber⟩⟩

/-- **What the parser takes off the front denotes the value it returns.** -/
theorem value_sound {fuel : ℕ} {s : List Char} {v : Json} {rest : List Char}
    (h : value fuel s = some (v, rest)) : ∃ t, s = t ++ rest ∧ Denotes v t := by
  induction fuel generalizing s v rest with
  | zero => cases h
  | succ fuel ih =>
    rw [value.eq_def] at h
    dsimp only at h
    split at h
    next s =>
      -- a string
      obtain ⟨⟨ps, rest'⟩, hps, heq⟩ := Option.map_eq_some_iff.mp h
      obtain ⟨rfl, rfl⟩ := Prod.mk.inj heq
      obtain ⟨body, rfl, hwritten⟩ := written_of_pieces hps
      exact ⟨'"' :: (body ++ ['"']), by simp, .str ⟨ps, body, hwritten, rfl, rfl⟩⟩
    next s =>
      -- an array
      obtain ⟨ws, hws, hs⟩ := exists_blank s
      split at h
      next rest' hclose =>
        obtain ⟨rfl, rfl⟩ := Prod.mk.inj (Option.some.inj h)
        rw [hclose] at hs
        exact ⟨'[' :: (ws ++ [']']), by rw [hs]; simp, .emptyArr hws⟩
      next =>
        obtain ⟨⟨items, rest'⟩, hitems, heq⟩ := Option.map_eq_some_iff.mp h
        obtain ⟨rfl, rfl⟩ := Prod.mk.inj heq
        obtain ⟨ts, rfl, hsequence⟩ := sequence_sound (fun _ _ _ => ih) hitems
        exact ⟨'[' :: (ts ++ [']']), by simp, .arr hsequence⟩
    next s =>
      -- an object
      obtain ⟨ws, hws, hs⟩ := exists_blank s
      split at h
      next rest' hclose =>
        obtain ⟨rfl, rfl⟩ := Prod.mk.inj (Option.some.inj h)
        rw [hclose] at hs
        exact ⟨'{' :: (ws ++ ['}']), by rw [hs]; simp, .emptyObj hws⟩
      next =>
        obtain ⟨⟨members, rest'⟩, hmembers, heq⟩ := Option.map_eq_some_iff.mp h
        obtain ⟨rfl, rfl⟩ := Prod.mk.inj heq
        obtain ⟨ts, rfl, hsequence⟩ :=
          sequence_sound (fun _ _ _ => member_sound fun _ _ _ => ih) hmembers
        exact ⟨'{' :: (ts ++ ['}']), by simp, .obj hsequence⟩
    next rest' =>
      obtain ⟨rfl, rfl⟩ := Prod.mk.inj (Option.some.inj h)
      exact ⟨['n', 'u', 'l', 'l'], rfl, .null⟩
    next rest' =>
      obtain ⟨rfl, rfl⟩ := Prod.mk.inj (Option.some.inj h)
      exact ⟨['t', 'r', 'u', 'e'], rfl, .yes⟩
    next rest' =>
      obtain ⟨rfl, rfl⟩ := Prod.mk.inj (Option.some.inj h)
      exact ⟨['f', 'a', 'l', 's', 'e'], rfl, .no⟩
    next => exact number_sound h

/-! ## What is denoted is read -/

/-- A number that ends here is not prolonged. -/
def NoNumber (rest : List Char) : Prop := ∀ c ∈ rest.head?, isNumberChar c = false

/-- The first character of a value, a key or a string. -/
def Starts (t : List Char) : Prop :=
  ∃ c rest, t = c :: rest ∧ isBlank c = false ∧ c ≠ ']' ∧ c ≠ '}'

theorem Denotes.starts {v : Json} {t : List Char} (h : Denotes v t) : Starts t := by
  cases h with
  | num n =>
    obtain ⟨-, c, rest, htext, hc⟩ := n.chars
    refine ⟨c, rest, htext, ?_⟩
    have hother : ∀ d : Char, d ≠ '-' → d.isDigit = false → c ≠ d := by
      rintro d hminus hdigit rfl
      rcases hc with hc | hc
      · exact hminus hc
      · rw [hdigit] at hc
        cases hc
    refine ⟨?_, hother ']' (by decide) (by decide), hother '}' (by decide) (by decide)⟩
    simp [isBlank, hother ' ' (by decide) (by decide), hother '\t' (by decide) (by decide),
      hother '\n' (by decide) (by decide), hother '\r' (by decide) (by decide)]
  | str h =>
    obtain ⟨ps, body, -, -, rfl⟩ := h
    exact ⟨_, _, rfl, by decide, by decide, by decide⟩
  | null | yes | no | emptyArr | arr | emptyObj | obj =>
    exact ⟨_, _, rfl, by decide, by decide, by decide⟩

theorem Member.starts {Value : Json → List Char → Prop} {m : List Char × Json} {t : List Char}
    (h : Member Value m t) : Starts t := by
  obtain ⟨⟨ps, body, -, -, rfl⟩, -, -, -⟩ := h
  exact ⟨_, _, rfl, by decide, by decide, by decide⟩

/-- Blanks before something else are dropped. -/
theorem dropWhile_blank {ws t : List Char} (hws : Blank ws)
    (ht : ∀ c ∈ t.head?, isBlank c = false) : (ws ++ t).dropWhile isBlank = t := by
  induction ws with
  | nil =>
    cases t with
    | nil => rfl
    | cons c t =>
      have hc := ht c rfl
      simp [hc]
  | cons c ws ih =>
    have hc := hws c List.mem_cons_self
    rw [List.cons_append, List.dropWhile_cons, if_pos hc]
    exact ih fun d hd => hws d (List.mem_cons_of_mem _ hd)

theorem Starts.dropWhile {ws t : List Char} (hws : Blank ws) (h : Starts t) (rest : List Char) :
    (ws ++ (t ++ rest)).dropWhile isBlank = t ++ rest := by
  obtain ⟨c, u, rfl, hc, -⟩ := h
  exact dropWhile_blank hws fun d hd => by
    obtain rfl : c = d := by simpa using hd
    exact hc

/-- After a value come blanks, a comma or a bracket. -/
theorem noNumber_of_blank {ws rest : List Char} {c : Char} (hws : Blank ws)
    (hc : isNumberChar c = false) : NoNumber (ws ++ c :: rest) := by
  intro d hd
  cases ws with
  | nil =>
    obtain rfl : c = d := by simpa using hd
    exact hc
  | cons b ws =>
    obtain rfl : b = d := by simpa using hd
    have hb := hws b List.mem_cons_self
    rcases (by simpa [isBlank] using hb : ((b = ' ' ∨ b = '\t') ∨ b = '\n') ∨ b = '\r') with
      ((rfl | rfl) | rfl) | rfl <;> decide

theorem sequence_complete {α : Type} {Entry : α → List Char → Prop}
    {entry : List Char → Option (α × List Char)} {close : Char} {n : ℕ}
    (hentry : ∀ a t, Entry a t → t.length ≤ n → ∀ rest, NoNumber rest →
      entry (t ++ rest) = some (a, rest))
    (hstarts : ∀ a t, Entry a t → Starts t) (hblank : isBlank close = false)
    (hnumber : isNumberChar close = false) (hcomma : close ≠ ',') {as : List α} {ts : List Char}
    (h : Sequence Entry as ts) (hlength : ts.length ≤ n) {fuel : ℕ} (hfuel : ts.length < fuel)
    (rest : List Char) : sequence entry close fuel (ts ++ close :: rest) = some (as, rest) := by
  induction h generalizing fuel with
  | @one a t ws ws' hws hent hws' =>
    obtain ⟨fuel, rfl⟩ := Nat.exists_eq_succ_of_ne_zero (by omega : fuel ≠ 0)
    simp only [List.length_append] at hlength
    rw [sequence, List.append_assoc, List.append_assoc, (hstarts _ _ hent).dropWhile hws,
      hentry _ _ hent (by omega) _ (noNumber_of_blank hws' hnumber)]
    dsimp only
    rw [dropWhile_blank hws' fun c hc => by
      obtain rfl : close = c := by simpa using hc
      exact hblank]
    dsimp only
    rw [if_pos rfl]
  | @cons a t ws ws' as ts hws hent hws' _ ih =>
    obtain ⟨fuel, rfl⟩ := Nat.exists_eq_succ_of_ne_zero (by omega : fuel ≠ 0)
    simp only [List.length_append, List.length_cons] at hlength hfuel
    have hassoc : ws ++ (t ++ (ws' ++ ',' :: ts)) ++ close :: rest =
        ws ++ (t ++ (ws' ++ ',' :: (ts ++ close :: rest))) := by simp
    rw [sequence, hassoc, (hstarts _ _ hent).dropWhile hws,
      hentry _ _ hent (by omega) _ (noNumber_of_blank hws' (by decide))]
    dsimp only
    rw [dropWhile_blank hws' fun c hc => by
      obtain rfl : ',' = c := by simpa using hc
      decide]
    dsimp only
    rw [if_neg hcomma.symm, if_pos rfl, ih (by omega) (by omega)]
    rfl

theorem member_complete {Value : Json → List Char → Prop}
    {value : List Char → Option (Json × List Char)} {n : ℕ}
    (hvalue : ∀ v t, Value v t → t.length ≤ n → ∀ rest, NoNumber rest →
      value (t ++ rest) = some (v, rest))
    (hstarts : ∀ v t, Value v t → Starts t) {m : List Char × Json} {t : List Char}
    (h : Member Value m t) (hlength : t.length ≤ n) (rest : List Char) (hrest : NoNumber rest) :
    member value (t ++ rest) = some (m, rest) := by
  obtain ⟨⟨ps, body, hwritten, rfl, rfl⟩, hws, hws', hv⟩ := h
  next ws ws' v t =>
  simp only [List.length_append, List.length_cons] at hlength
  have hassoc : '"' :: (body ++ ['"']) ++ (ws ++ ':' :: (ws' ++ t)) ++ rest =
      '"' :: (body ++ '"' :: (ws ++ ':' :: (ws' ++ (t ++ rest)))) := by simp
  rw [hassoc, member, pieces_of_written hwritten]
  dsimp only
  rw [dropWhile_blank hws fun c hc => by
    obtain rfl : ':' = c := by simpa using hc
    decide]
  show (value ((ws' ++ (t ++ rest)).dropWhile isBlank)).map _ = _
  rw [(hstarts _ _ hv).dropWhile hws', hvalue _ _ hv (by omega) _ hrest]
  rfl

theorem number_complete (n : Number) (rest : List Char) (hrest : NoNumber rest) :
    number (n.text ++ rest) = some (.num n, rest) := by
  have hall := List.all_eq_true.mp n.chars.1
  have htake : (n.text ++ rest).takeWhile isNumberChar = n.text := by
    rw [List.takeWhile_append_of_pos hall]
    cases rest with
    | nil => simp
    | cons c rest => simp [hrest c rfl]
  have hdrop : (n.text ++ rest).dropWhile isNumberChar = rest := by
    rw [List.dropWhile_append_of_pos hall]
    cases rest with
    | nil => rfl
    | cons c rest => simp [hrest c rfl]
  unfold number
  simp only [htake, hdrop, n.ok, dite_true]

/-- A number is not taken for anything else. -/
theorem value_of_number {fuel : ℕ} {c : Char} (hc : c = '-' ∨ c.isDigit = true) (s : List Char) :
    value (fuel + 1) (c :: s) = number (c :: s) := by
  have hother : ∀ d : Char, d ≠ '-' → d.isDigit = false → c ≠ d := by
    rintro d hminus hdigit rfl
    rcases hc with hc | hc
    · exact hminus hc
    · rw [hdigit] at hc
      cases hc
  rw [value.eq_def]
  dsimp only
  split
  next heq => exact absurd (List.cons.inj heq).1 (hother _ (by decide) (by decide))
  next heq => exact absurd (List.cons.inj heq).1 (hother _ (by decide) (by decide))
  next heq => exact absurd (List.cons.inj heq).1 (hother _ (by decide) (by decide))
  next heq => exact absurd (List.cons.inj heq).1 (hother _ (by decide) (by decide))
  next heq => exact absurd (List.cons.inj heq).1 (hother _ (by decide) (by decide))
  next heq => exact absurd (List.cons.inj heq).1 (hother _ (by decide) (by decide))
  next => rfl

/-- What begins an entry ends no empty array or object. -/
theorem Sequence.dropWhile {α : Type} {Entry : α → List Char → Prop}
    (hstarts : ∀ a t, Entry a t → Starts t) {as : List α} {ts : List Char}
    (h : Sequence Entry as ts) (rest : List Char) :
    ∃ c u, (ts ++ rest).dropWhile isBlank = c :: u ∧ c ≠ ']' ∧ c ≠ '}' := by
  have hfirst : ∀ {a t ws}, Blank ws → Entry a t → ∀ u,
      ∃ c v, (ws ++ (t ++ u)).dropWhile isBlank = c :: v ∧ c ≠ ']' ∧ c ≠ '}' := by
    intro a t ws hws hent u
    obtain ⟨c, v, rfl, -, hc⟩ := hstarts a t hent
    exact ⟨c, v ++ u, (hstarts _ _ hent).dropWhile hws u, hc⟩
  cases h with
  | one hws hent hws' =>
    rw [List.append_assoc, List.append_assoc]
    exact hfirst hws hent _
  | cons hws hent hws' _ =>
    rw [List.append_assoc, List.append_assoc]
    exact hfirst hws hent _

/-- **The parser takes a text that denotes a value off the front**, where what follows does not
prolong it. -/
theorem value_complete {fuel : ℕ} {v : Json} {t : List Char} (h : Denotes v t)
    (hfuel : t.length ≤ fuel) {rest : List Char} (hrest : NoNumber rest) :
    value fuel (t ++ rest) = some (v, rest) := by
  induction fuel generalizing v t rest with
  | zero =>
    obtain ⟨c, u, rfl, -⟩ := h.starts
    simp at hfuel
  | succ fuel ih =>
    cases h with
    | null | yes | no => rfl
    | num n =>
      obtain ⟨-, c, u, htext, hc⟩ := n.chars
      rw [htext, List.cons_append, value_of_number hc, ← List.cons_append, ← htext]
      exact number_complete n rest hrest
    | str h =>
      obtain ⟨ps, body, hwritten, rfl, rfl⟩ := h
      have hassoc : '"' :: (body ++ ['"']) ++ rest = '"' :: (body ++ '"' :: rest) := by simp
      rw [hassoc, value, pieces_of_written hwritten]
      rfl
    | emptyArr hws =>
      next ws =>
      have hassoc : '[' :: (ws ++ [']']) ++ rest = '[' :: (ws ++ ']' :: rest) := by simp
      rw [hassoc, value, dropWhile_blank hws fun c hc => by
        obtain rfl : ']' = c := by simpa using hc
        decide]
      rfl
    | emptyObj hws =>
      next ws =>
      have hassoc : '{' :: (ws ++ ['}']) ++ rest = '{' :: (ws ++ '}' :: rest) := by simp
      rw [hassoc, value, dropWhile_blank hws fun c hc => by
        obtain rfl : '}' = c := by simpa using hc
        decide]
      rfl
    | @arr items ts h =>
      have hassoc : '[' :: (ts ++ [']']) ++ rest = '[' :: (ts ++ ']' :: rest) := by simp
      simp only [List.length_cons, List.length_append, List.length_nil] at hfuel
      obtain ⟨c, u, hdrop, hc, -⟩ := h.dropWhile (fun _ _ h => h.starts) (']' :: rest)
      have hlonger : ts.length < (ts ++ ']' :: rest).length := by
        simp only [List.length_append, List.length_cons]
        omega
      have hitems : sequence (value fuel) ']' (ts ++ ']' :: rest).length (ts ++ ']' :: rest) =
          some (items, rest) :=
        sequence_complete (n := fuel) (fun _ _ h hlength _ => ih h hlength)
          (fun _ _ h => h.starts) (by decide) (by decide) (by decide) h (by omega) hlonger rest
      rw [hassoc, value, hdrop]
      split
      next heq => exact absurd (List.cons.inj heq).1 hc
      next =>
        rw [hitems]
        rfl
    | @obj members ts h =>
      have hassoc : '{' :: (ts ++ ['}']) ++ rest = '{' :: (ts ++ '}' :: rest) := by simp
      simp only [List.length_cons, List.length_append, List.length_nil] at hfuel
      obtain ⟨c, u, hdrop, -, hc⟩ := h.dropWhile (fun _ _ h => h.starts) ('}' :: rest)
      have hlonger : ts.length < (ts ++ '}' :: rest).length := by
        simp only [List.length_append, List.length_cons]
        omega
      have hmembers : sequence (member (value fuel)) '}' (ts ++ '}' :: rest).length
          (ts ++ '}' :: rest) = some (members, rest) :=
        sequence_complete (n := fuel)
          (fun _ _ h hlength _ => member_complete (fun _ _ h hlength _ => ih h hlength)
            (fun _ _ h => h.starts) h hlength _)
          (fun _ _ h => h.starts) (by decide) (by decide) (by decide) h (by omega) hlonger rest
      rw [hassoc, value, hdrop]
      split
      next heq => exact absurd (List.cons.inj heq).1 hc
      next =>
        rw [hmembers]
        rfl

/-- **The parser accepts exactly the texts of the grammar**, with the value they denote. -/
theorem parse_eq_some_iff {s : List Char} {v : Json} : parse s = some v ↔ Text v s := by
  constructor
  · intro h
    obtain ⟨ws, hws, hs⟩ := exists_blank s
    unfold parse at h
    split at h
    · cases h
    next v' rest hv =>
      split_ifs at h with hrest
      cases h
      obtain ⟨t, ht, hdenotes⟩ := value_sound hv
      rw [ht] at hs
      exact ⟨ws, t, rest, hws, hdenotes, List.all_eq_true.mp hrest, hs⟩
  · rintro ⟨ws, t, ws', hws, hdenotes, hws', rfl⟩
    have hrest : NoNumber ws' := by
      cases ws' with
      | nil => exact fun c hc => by cases hc
      | cons b ws' =>
        intro c hc
        obtain rfl : b = c := by simpa using hc
        have hblank : NoNumber ((b :: ws') ++ [']']) := noNumber_of_blank hws' (by decide)
        exact hblank b rfl
    have hfuel : t.length ≤ (ws ++ (t ++ ws')).length + 1 := by
      simp only [List.length_append]
      omega
    have hread := value_complete hdenotes hfuel hrest
    unfold parse
    rw [hdenotes.starts.dropWhile hws, hread]
    dsimp only
    rw [if_pos (List.all_eq_true.mpr hws')]

/-- A text denotes one value. -/
theorem Text.unique {s : List Char} {v w : Json} (h : Text v s) (h' : Text w s) : v = w :=
  Option.some.inj ((parse_eq_some_iff.mpr h).symm.trans (parse_eq_some_iff.mpr h'))

end JsonText

import StateProxy.ProofKit.Numeral
import Mathlib.Tactic.IntervalCases

/-! JSON values and their compact texts.  A value is written over the bytes of its strings; what is read
has, in place of each string, the literal that stands for it in the text, which also says whether it
has an escape sequence.  A written value, before any text, is read back as its literals. -/

namespace StateProxy.ProofKit

/-- A JSON value whose strings are given by `σ`, and whose numbers are 64 bit wide. -/
inductive Json (σ : Type)
  | null
  | number (n : UInt64)
  | string (text : σ)
  | array (items : List (Json σ))
  | object (members : List (σ × Json σ))

/-- What a string literal denotes, and whether it does so without an escape sequence. -/
structure Literal where
  bytes : List UInt8
  isRaw : Bool
deriving DecidableEq

/-- The bytes that cannot stand for themselves in a string literal. -/
def NeedsEscape (b : UInt8) : Prop :=
  b = 0x22 ∨ b = 0x5c ∨ b < 0x20

instance (b : UInt8) : Decidable (NeedsEscape b) :=
  inferInstanceAs (Decidable (_ ∨ _))

/-- The literal of a string: it escapes only what has to be escaped. -/
def Literal.of (bytes : List UInt8) : Literal :=
  ⟨bytes, bytes.all fun b => ¬ NeedsEscape b⟩

namespace Json

mutual

/-- The literals of a value. -/
def literals : Json (List UInt8) → Json Literal
  | null => null
  | number n => number n
  | string text => string (.of text)
  | array items => array (literalItems items)
  | object members => object (literalMembers members)

def literalItems : List (Json (List UInt8)) → List (Json Literal)
  | [] => []
  | v :: items => v.literals :: literalItems items

def literalMembers : List (List UInt8 × Json (List UInt8)) → List (Literal × Json Literal)
  | [] => []
  | (key, v) :: members => (.of key, v.literals) :: literalMembers members

end

theorem literalItems_eq (items : List (Json (List UInt8))) :
    literalItems items = items.map literals := by
  induction items with
  | nil => rfl
  | cons v items ih => rw [literalItems, ih, List.map_cons]

theorem literalMembers_eq (members : List (List UInt8 × Json (List UInt8))) :
    literalMembers members = members.map fun (key, v) => (.of key, v.literals) := by
  induction members with
  | nil => rfl
  | cons member members ih => rw [literalMembers, ih, List.map_cons]

mutual

/-- How deep arrays and objects are nested in a value. -/
def depth {σ : Type} : Json σ → Nat
  | null | number _ | string _ => 0
  | array items => depthItems items + 1
  | object members => depthMembers members + 1

def depthItems {σ : Type} : List (Json σ) → Nat
  | [] => 0
  | v :: items => max v.depth (depthItems items)

def depthMembers {σ : Type} : List (σ × Json σ) → Nat
  | [] => 0
  | (_, v) :: members => max v.depth (depthMembers members)

end

/-! ### Writing -/

def asciiByte (c : Char) : UInt8 := UInt8.ofNat c.toNat

def asciiChar (b : UInt8) : Char := Char.ofNat b.toNat

def escape (b : UInt8) : List UInt8 :=
  if b = 0x22 then [0x5c, 0x22]
  else if b = 0x5c then [0x5c, 0x5c]
  else if b = 0x08 then [0x5c, 0x62]
  else if b = 0x0c then [0x5c, 0x66]
  else if b = 0x0a then [0x5c, 0x6e]
  else if b = 0x0d then [0x5c, 0x72]
  else if b = 0x09 then [0x5c, 0x74]
  else if b < 0x20 then
    [0x5c, 0x75, 0x30, 0x30, asciiByte (Nat.digitChar (b.toNat / 16)),
      asciiByte (Nat.digitChar (b.toNat % 16))]
  else [b]

/-- A string literal without its first quote. -/
def quoted (bytes : List UInt8) : List UInt8 :=
  bytes.flatMap escape ++ [0x22]

mutual

def text : Json (List UInt8) → List UInt8
  | null => [0x6e, 0x75, 0x6c, 0x6c]
  | number n => (digits 10 n.toNat).map fun d => asciiByte (Nat.digitChar d)
  | string bytes => 0x22 :: quoted bytes
  | array [] => [0x5b, 0x5d]
  | array (v :: items) => 0x5b :: (v.text ++ nextItems items)
  | object [] => [0x7b, 0x7d]
  | object ((key, v) :: members) =>
    0x7b :: 0x22 :: (quoted key ++ 0x3a :: (v.text ++ nextMembers members))

/-- The items after the first one, and the end of the array. -/
def nextItems : List (Json (List UInt8)) → List UInt8
  | [] => [0x5d]
  | v :: items => 0x2c :: (v.text ++ nextItems items)

/-- The members after the first one, and the end of the object. -/
def nextMembers : List (List UInt8 × Json (List UInt8)) → List UInt8
  | [] => [0x7d]
  | (key, v) :: members => 0x2c :: 0x22 :: (quoted key ++ 0x3a :: (v.text ++ nextMembers members))

end

/-! ### Reading -/

/-- Why a text is not the text of a value: it ends too early, or it goes on in a wrong way. -/
inductive Error
  | eof
  | malformed
deriving DecidableEq

def byteDigit (radix : Nat) (b : UInt8) : Option Nat :=
  toDigit radix (asciiChar b)

def expect (b : UInt8) : List UInt8 → Except Error (List UInt8)
  | [] => .error .eof
  | c :: rest => if c = b then .ok rest else .error .malformed

/-- The bytes of the code unit that four hexadecimal digits denote. -/
def codeUnit (hex : List UInt8) : Except Error (List UInt8) :=
  match hex.mapM (byteDigit 16) with
  | none => .error .malformed
  | some digits =>
    let n := ofDigits 16 digits
    if 0xd800 ≤ n ∧ n < 0xe000 then .error .malformed else .ok (String.utf8EncodeChar (Char.ofNat n))

/-- What follows a backslash. -/
def unescape : List UInt8 → Except Error (List UInt8 × List UInt8)
  | [] => .error .eof
  | b :: rest =>
    if b = 0x22 ∨ b = 0x5c ∨ b = 0x2f then .ok ([b], rest)
    else if b = 0x62 then .ok ([0x08], rest)
    else if b = 0x66 then .ok ([0x0c], rest)
    else if b = 0x6e then .ok ([0x0a], rest)
    else if b = 0x72 then .ok ([0x0d], rest)
    else if b = 0x74 then .ok ([0x09], rest)
    else if b = 0x75 then
      if rest.length < 4 then .error .eof
      else (codeUnit (rest.take 4)).map fun bytes => (bytes, rest.drop 4)
    else .error .malformed

/-- A string literal after its first quote. -/
def readString : Nat → List UInt8 → Except Error (Literal × List UInt8)
  | 0, _ => .error .malformed
  | _ + 1, [] => .error .eof
  | fuel + 1, b :: rest =>
    if b = 0x22 then .ok (⟨[], true⟩, rest)
    else if b = 0x5c then do
      let (bytes, rest) ← unescape rest
      let (literal, rest) ← readString fuel rest
      .ok (⟨bytes ++ literal.bytes, false⟩, rest)
    else if b < 0x20 then .error .malformed
    else do
      let (literal, rest) ← readString fuel rest
      .ok (⟨b :: literal.bytes, literal.isRaw⟩, rest)

def readNumber (text : List UInt8) : Except Error (UInt64 × List UInt8) :=
  let (digits, rest) := readDigits (byteDigit 10) text
  if digits = [] then .error .malformed
  else if digits.head? = some 0 ∧ 1 < digits.length then .error .malformed
  else if ofDigits 10 digits < 2 ^ 64 then .ok (UInt64.ofNat (ofDigits 10 digits), rest)
  else .error .malformed

mutual

/-- A value at the front of a text. -/
def readValue : Nat → List UInt8 → Except Error (Json Literal × List UInt8)
  | 0, _ => .error .malformed
  | _ + 1, [] => .error .eof
  | fuel + 1, b :: rest =>
    if b = 0x6e then do
      let rest ← expect 0x75 rest
      let rest ← expect 0x6c rest
      let rest ← expect 0x6c rest
      .ok (null, rest)
    else if b = 0x22 then do
      let (literal, rest) ← readString fuel rest
      .ok (string literal, rest)
    else if b = 0x5b then
      if rest.head? = some 0x5d then .ok (array [], rest.tail)
      else do
        let (v, rest) ← readValue fuel rest
        let (items, rest) ← readItems fuel rest
        .ok (array (v :: items), rest)
    else if b = 0x7b then
      if rest.head? = some 0x7d then .ok (object [], rest.tail)
      else do
        let rest ← expect 0x22 rest
        let (key, rest) ← readString fuel rest
        let rest ← expect 0x3a rest
        let (v, rest) ← readValue fuel rest
        let (members, rest) ← readMembers fuel rest
        .ok (object ((key, v) :: members), rest)
    else do
      let (n, rest) ← readNumber (b :: rest)
      .ok (number n, rest)

/-- The items after the first one, and the end of the array. -/
def readItems : Nat → List UInt8 → Except Error (List (Json Literal) × List UInt8)
  | 0, _ => .error .malformed
  | _ + 1, [] => .error .eof
  | fuel + 1, b :: rest =>
    if b = 0x5d then .ok ([], rest)
    else if b = 0x2c then do
      let (v, rest) ← readValue fuel rest
      let (items, rest) ← readItems fuel rest
      .ok (v :: items, rest)
    else .error .malformed

/-- The members after the first one, and the end of the object. -/
def readMembers : Nat → List UInt8 → Except Error (List (Literal × Json Literal) × List UInt8)
  | 0, _ => .error .malformed
  | _ + 1, [] => .error .eof
  | fuel + 1, b :: rest =>
    if b = 0x7d then .ok ([], rest)
    else if b = 0x2c then do
      let rest ← expect 0x22 rest
      let (key, rest) ← readString fuel rest
      let rest ← expect 0x3a rest
      let (v, rest) ← readValue fuel rest
      let (members, rest) ← readMembers fuel rest
      .ok ((key, v) :: members, rest)
    else .error .malformed

end

/-- The value at the front of a text and the number of bytes of its text. -/
def read (text : List UInt8) : Except Error (Json Literal × Nat) :=
  (readValue (text.length + 1) text).map fun (v, rest) => (v, text.length - rest.length)

/-! ### Reading what was written -/

theorem byteDigit_digitChar {d : Nat} (h : d < 10) :
    byteDigit 10 (asciiByte (Nat.digitChar d)) = some d := by
  have hall : ∀ d < 10, byteDigit 10 (asciiByte (Nat.digitChar d)) = some d := by decide
  exact hall d h

theorem unescape_escape {b : UInt8} (h : NeedsEscape b) (rest : List UInt8) :
    ∃ tail, escape b = 0x5c :: tail ∧ unescape (tail ++ rest) = .ok ([b], rest) := by
  obtain rfl | rfl | h := h
  · exact ⟨_, rfl, rfl⟩
  · exact ⟨_, rfl, rfl⟩
  · have hlt : b.toNat < 32 := h
    obtain ⟨n, hn⟩ : ∃ n, b.toNat = n := ⟨_, rfl⟩
    have hb : b = UInt8.ofNat n := by rw [← hn, UInt8.ofNat_toNat]
    rw [hn] at hlt
    subst hb
    clear hn h
    interval_cases n <;> exact ⟨_, rfl, rfl⟩

theorem escape_of_not {b : UInt8} (h : ¬ NeedsEscape b) : escape b = [b] := by
  simp only [NeedsEscape, not_or] at h
  obtain ⟨hquote, hbackslash, hcontrol⟩ := h
  have hne : ∀ c : UInt8, c < 0x20 → b ≠ c := fun c hc hb => hcontrol (hb ▸ hc)
  simp [escape, hquote, hbackslash, hcontrol, hne 0x08 (by decide), hne 0x0c (by decide),
    hne 0x0a (by decide), hne 0x0d (by decide), hne 0x09 (by decide)]

theorem readString_quoted (bytes : List UInt8) (fuel : Nat) (hfuel : bytes.length < fuel)
    (rest : List UInt8) : readString fuel (quoted bytes ++ rest) = .ok (.of bytes, rest) := by
  induction bytes generalizing fuel with
  | nil =>
    obtain ⟨fuel, rfl⟩ : ∃ k, fuel = k + 1 := ⟨fuel - 1, by omega⟩
    rfl
  | cons b bytes ih =>
    rw [List.length_cons] at hfuel
    obtain ⟨fuel, rfl⟩ : ∃ k, fuel = k + 1 := ⟨fuel - 1, by omega⟩
    have hnext : readString fuel (quoted bytes ++ rest) = .ok (.of bytes, rest) := ih fuel (by omega)
    have hsplit : quoted (b :: bytes) ++ rest = escape b ++ (quoted bytes ++ rest) := by
      simp [quoted]
    rw [hsplit]
    by_cases h : NeedsEscape b
    · obtain ⟨tail, hescape, hunescape⟩ := unescape_escape h (quoted bytes ++ rest)
      rw [hescape, List.cons_append]
      simp [readString, hunescape, hnext, Literal.of, h, bind, Except.bind]
    · rw [escape_of_not h]
      have hparts := h
      simp only [NeedsEscape, not_or] at hparts
      simp [readString, hparts, hnext, Literal.of, h, bind, Except.bind]

theorem length_quoted (bytes : List UInt8) : bytes.length < (quoted bytes).length := by
  induction bytes with
  | nil => decide
  | cons b bytes ih =>
    have hescape : 0 < (escape b).length := by
      unfold escape
      split_ifs <;> simp
    simp only [quoted, List.flatMap_cons, List.length_append, List.length_cons, List.length_nil] at ih ⊢
    omega

theorem digitByte_ne {d : Nat} (h : d < 10) :
    asciiByte (Nat.digitChar d) ≠ 0x6e ∧ asciiByte (Nat.digitChar d) ≠ 0x22 ∧
      asciiByte (Nat.digitChar d) ≠ 0x5b ∧ asciiByte (Nat.digitChar d) ≠ 0x7b ∧
      asciiByte (Nat.digitChar d) ≠ 0x5d := by
  have hall : ∀ d < 10, asciiByte (Nat.digitChar d) ≠ 0x6e ∧ asciiByte (Nat.digitChar d) ≠ 0x22 ∧
      asciiByte (Nat.digitChar d) ≠ 0x5b ∧ asciiByte (Nat.digitChar d) ≠ 0x7b ∧
      asciiByte (Nat.digitChar d) ≠ 0x5d := by decide
  exact hall d h

/-- The text of a number begins with a digit. -/
theorem text_number (n : UInt64) : ∃ d tail, d < 10 ∧
    (number n).text = asciiByte (Nat.digitChar d) :: tail := by
  cases hdigits : digits 10 n.toNat with
  | nil => exact absurd hdigits (digits_ne_nil _ _)
  | cons d ds =>
    have hd : d < 10 := digits_lt (n := n.toNat) (by decide) (by rw [hdigits]; exact List.mem_cons_self)
    exact ⟨d, ds.map fun d => asciiByte (Nat.digitChar d), hd, by rw [text, hdigits, List.map_cons]⟩

theorem readNumber_text (n : UInt64) {rest : List UInt8} (h : Stops (byteDigit 10) rest) :
    readNumber ((number n).text ++ rest) = .ok (n, rest) := by
  have hread : readDigits (byteDigit 10) ((number n).text ++ rest) = (digits 10 n.toNat, rest) :=
    readDigits_map (fun d hd => byteDigit_digitChar (digits_lt (by decide) hd)) h
  have hzero : ¬ ((digits 10 n.toNat).head? = some 0 ∧ 1 < (digits 10 n.toNat).length) := by
    rintro ⟨hhead, hlong⟩
    have hone := head_digits hhead
    omega
  have hlt : n.toNat < 2 ^ 64 := n.toNat_lt
  simp only [readNumber, hread, if_neg (digits_ne_nil _ _), if_neg hzero, ofDigits_digits, if_pos hlt,
    UInt64.ofNat_toNat]

/-- No text of a value begins with the end of an array. -/
theorem head_text (v : Json (List UInt8)) (rest : List UInt8) :
    (v.text ++ rest).head? ≠ some 0x5d := by
  cases v with
  | null => simp [text]
  | number n =>
    obtain ⟨d, tail, hd, htext⟩ := text_number n
    rw [htext]
    simpa using (digitByte_ne hd).2.2.2.2
  | string bytes => simp [text]
  | array items => cases items <;> simp [text]
  | object members =>
    rcases members with _ | ⟨⟨key, v⟩, members⟩ <;> simp [text]

theorem stops_nextItems (items : List (Json (List UInt8))) (rest : List UInt8) :
    Stops (byteDigit 10) (nextItems items ++ rest) := by
  cases items with
  | nil =>
    rintro c ⟨⟩
    decide
  | cons v items =>
    rintro c ⟨⟩
    decide

theorem stops_nextMembers (members : List (List UInt8 × Json (List UInt8))) (rest : List UInt8) :
    Stops (byteDigit 10) (nextMembers members ++ rest) := by
  cases members with
  | nil =>
    rintro c ⟨⟩
    decide
  | cons member members =>
    rintro c ⟨⟩
    decide

theorem length_text_pos (v : Json (List UInt8)) : 0 < v.text.length := by
  cases v with
  | null => simp [text]
  | number n =>
    obtain ⟨d, tail, -, htext⟩ := text_number n
    simp [htext]
  | string bytes => simp [text]
  | array items => cases items <;> simp [text]
  | object members =>
    rcases members with _ | ⟨⟨key, v⟩, members⟩ <;> simp [text]

mutual

/-- A written value is read back as its literals; after a number there must not be a digit. -/
theorem readValue_text (v : Json (List UInt8)) (fuel : Nat) (hfuel : v.text.length ≤ fuel)
    (rest : List UInt8) (hrest : ∀ n, v = number n → Stops (byteDigit 10) rest) :
    readValue fuel (v.text ++ rest) = .ok (v.literals, rest) := by
  obtain ⟨fuel, rfl⟩ : ∃ k, fuel = k + 1 := ⟨fuel - 1, by have := length_text_pos v; omega⟩
  match v with
  | null => rfl
  | number n =>
    obtain ⟨d, tail, hd, htext⟩ := text_number n
    obtain ⟨h1, h2, h3, h4, -⟩ := digitByte_ne hd
    have hread := readNumber_text n (hrest n rfl)
    rw [htext, List.cons_append] at hread ⊢
    simp only [readValue, if_neg h1, if_neg h2, if_neg h3, if_neg h4, hread]
    rfl
  | string bytes =>
    have hlen := length_quoted bytes
    simp only [text, List.length_cons] at hfuel
    have hread := readString_quoted bytes fuel (by omega) rest
    simp only [text, List.cons_append, readValue, hread]
    rfl
  | array [] => rfl
  | array (v :: items) =>
    simp only [text, List.length_cons, List.length_append] at hfuel
    have hfirst := readValue_text v fuel (by omega) (nextItems items ++ rest)
      fun _ _ => stops_nextItems items rest
    have hitems := readItems_text items fuel (by omega) rest
    have hhead := head_text v (nextItems items ++ rest)
    simp only [text, List.cons_append, List.append_assoc, readValue, if_neg hhead, hfirst]
    simp [hitems, literals, literalItems, bind, Except.bind]
  | object [] => rfl
  | object ((key, v) :: members) =>
    have hlen := length_quoted key
    simp only [text, List.length_cons, List.length_append] at hfuel
    have hkey := readString_quoted key fuel (by omega)
      (0x3a :: (v.text ++ (nextMembers members ++ rest)))
    have hfirst := readValue_text v fuel (by omega) (nextMembers members ++ rest)
      fun _ _ => stops_nextMembers members rest
    have hmembers := readMembers_text members fuel (by omega) rest
    simp only [text, List.cons_append, List.append_assoc, readValue]
    simp [expect, hkey, hfirst, hmembers, literals, literalMembers, bind, Except.bind]

theorem readItems_text (items : List (Json (List UInt8))) (fuel : Nat)
    (hfuel : (nextItems items).length ≤ fuel) (rest : List UInt8) :
    readItems fuel (nextItems items ++ rest) = .ok (literalItems items, rest) := by
  match items, fuel with
  | [], 0 => simp [nextItems] at hfuel
  | [], fuel + 1 => rfl
  | _ :: _, 0 => simp [nextItems] at hfuel
  | v :: items, fuel + 1 =>
    simp only [nextItems, List.length_cons, List.length_append] at hfuel
    have hfirst := readValue_text v fuel (by omega) (nextItems items ++ rest)
      fun _ _ => stops_nextItems items rest
    have hitems := readItems_text items fuel (by omega) rest
    simp only [nextItems, List.cons_append, List.append_assoc, readItems]
    simp [hfirst, hitems, literalItems, bind, Except.bind]

theorem readMembers_text (members : List (List UInt8 × Json (List UInt8))) (fuel : Nat)
    (hfuel : (nextMembers members).length ≤ fuel) (rest : List UInt8) :
    readMembers fuel (nextMembers members ++ rest) = .ok (literalMembers members, rest) := by
  match members, fuel with
  | [], 0 => simp [nextMembers] at hfuel
  | [], fuel + 1 => rfl
  | (_, _) :: _, 0 => simp [nextMembers] at hfuel
  | (key, v) :: members, fuel + 1 =>
    have hlen := length_quoted key
    simp only [nextMembers, List.length_cons, List.length_append] at hfuel
    have hkey := readString_quoted key fuel (by omega)
      (0x3a :: (v.text ++ (nextMembers members ++ rest)))
    have hfirst := readValue_text v fuel (by omega) (nextMembers members ++ rest)
      fun _ _ => stops_nextMembers members rest
    have hmembers := readMembers_text members fuel (by omega) rest
    simp only [nextMembers, List.cons_append, List.append_assoc, readMembers]
    simp [expect, hkey, hfirst, hmembers, literalMembers, bind, Except.bind]

end

/-- An object at the front of a text is read back, whatever comes after it. -/
theorem read_object (members : List (List UInt8 × Json (List UInt8))) (rest : List UInt8) :
    read ((object members).text ++ rest) =
      .ok ((object members).literals, (object members).text.length) := by
  have hread := readValue_text (object members) (((object members).text ++ rest).length + 1)
    (by rw [List.length_append]; omega) rest fun n h => by cases h
  rw [read, hread]
  simp [Except.map]

end Json

end StateProxy.ProofKit

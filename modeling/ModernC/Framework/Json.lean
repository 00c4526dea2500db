import Mathlib.Data.List.TakeWhile
import ModernC.Framework.Utf8

/-!
# JSON texts

A value is made of strings, natural numbers, arrays and objects.  A relation says which bytes
denote a value whose strings are texts; a writer takes a value whose strings are bytes, escapes
what has to be escaped, and copies every other byte.
-/

namespace ModernC.Framework

/-- A value with strings of one type. -/
inductive Json (α : Type) where
  | string (text : α)
  | number (n : ℕ)
  | array (items : List (Json α))
  | object (members : List (α × Json α))

/-- The byte of an ASCII character. -/
def ascii (c : Char) : UInt8 := UInt8.ofNat c.toNat

def asciiBytes (text : String) : Bytes := text.toList.map ascii

/-! ## The grammar -/

/-- What a character behind a backslash stands for. -/
def jsonEscape : Char → Option Char
  | '"' => some '"'
  | '\\' => some '\\'
  | '/' => some '/'
  | 'b' => some '\x08'
  | 'f' => some '\x0c'
  | 'n' => some '\n'
  | 'r' => some '\r'
  | 't' => some '\t'
  | _ => none

/-- The hexadecimal digit of a number below 16. -/
def hexDigit (n : ℕ) : UInt8 := ascii (Nat.digitChar n)

/-- The bytes between the quotes of a string denote a text. -/
inductive DenotesText : List Char → Bytes → Prop
  | nil : DenotesText [] []
  | plain {c : Char} {text : List Char} {bytes : Bytes} (hcontrol : 32 ≤ c.toNat)
      (hquote : c ≠ '"') (hescape : c ≠ '\\') (h : DenotesText text bytes) :
      DenotesText (c :: text) (String.utf8EncodeChar c ++ bytes)
  | escape {e c : Char} {text : List Char} {bytes : Bytes} (he : jsonEscape e = some c)
      (h : DenotesText text bytes) : DenotesText (c :: text) (ascii '\\' :: ascii e :: bytes)
  | unicode {c : Char} {text : List Char} {bytes : Bytes} (hc : c.toNat < 65536)
      (h : DenotesText text bytes) :
      DenotesText (c :: text) (ascii '\\' :: ascii 'u' :: hexDigit (c.toNat / 4096) ::
        hexDigit (c.toNat / 256 % 16) :: hexDigit (c.toNat / 16 % 16) ::
        hexDigit (c.toNat % 16) :: bytes)

def quote (bytes : Bytes) : Bytes := ascii '"' :: (bytes ++ [ascii '"'])

/-- The digits of a number. -/
def decimal (n : ℕ) : Bytes := (Nat.toDigits 10 n).map ascii

mutual

/-- The bytes denote a value. -/
inductive Denotes : Json (List Char) → Bytes → Prop
  | string {text : List Char} {bytes : Bytes} (h : DenotesText text bytes) :
      Denotes (.string text) (quote bytes)
  | number (n : ℕ) : Denotes (.number n) (decimal n)
  | array {items : List (Json (List Char))} {bytes : Bytes} (h : DenotesItems items bytes) :
      Denotes (.array items) (ascii '[' :: (bytes ++ [ascii ']']))
  | object {members : List (List Char × Json (List Char))} {bytes : Bytes}
      (h : DenotesMembers members bytes) :
      Denotes (.object members) (ascii '\x7b' :: (bytes ++ [ascii '\x7d']))

/-- Values with commas between them. -/
inductive DenotesItems : List (Json (List Char)) → Bytes → Prop
  | nil : DenotesItems [] []
  | one {item : Json (List Char)} {bytes : Bytes} (h : Denotes item bytes) :
      DenotesItems [item] bytes
  | cons {item next : Json (List Char)} {items : List (Json (List Char))} {bytes rest : Bytes}
      (h : Denotes item bytes) (hrest : DenotesItems (next :: items) rest) :
      DenotesItems (item :: next :: items) (bytes ++ ascii ',' :: rest)

/-- Names and values with commas between them. -/
inductive DenotesMembers : List (List Char × Json (List Char)) → Bytes → Prop
  | nil : DenotesMembers [] []
  | one {key : List Char} {value : Json (List Char)} {name bytes : Bytes}
      (hname : DenotesText key name) (h : Denotes value bytes) :
      DenotesMembers [(key, value)] (quote name ++ ascii ':' :: bytes)
  | cons {key : List Char} {value : Json (List Char)} {next : List Char × Json (List Char)}
      {members : List (List Char × Json (List Char))} {name bytes rest : Bytes}
      (hname : DenotesText key name) (h : Denotes value bytes)
      (hrest : DenotesMembers (next :: members) rest) :
      DenotesMembers ((key, value) :: next :: members)
        (quote name ++ ascii ':' :: (bytes ++ ascii ',' :: rest))

end

/-! ## The writer -/

/-- A byte of a string, escaped where it has to be. -/
def escapeByte (b : UInt8) : Bytes :=
  if b = ascii '"' then [ascii '\\', ascii '"']
  else if b = ascii '\\' then [ascii '\\', ascii '\\']
  else if b = ascii '\n' then [ascii '\\', ascii 'n']
  else if b = ascii '\r' then [ascii '\\', ascii 'r']
  else if b = ascii '\t' then [ascii '\\', ascii 't']
  else if b = 8 then [ascii '\\', ascii 'b']
  else if b = 12 then [ascii '\\', ascii 'f']
  else if b < 32 then
    [ascii '\\', ascii 'u', ascii '0', ascii '0', hexDigit (b.toNat / 16), hexDigit (b.toNat % 16)]
  else [b]

def writeString (bytes : Bytes) : Bytes := quote (bytes.flatMap escapeByte)

/-- A comma, if something follows. -/
def commaBefore {α : Type} : List α → Bytes
  | [] => []
  | _ :: _ => [ascii ',']

mutual

def Json.write : Json Bytes → Bytes
  | .string bytes => writeString bytes
  | .number n => decimal n
  | .array items => ascii '[' :: (writeItems items ++ [ascii ']'])
  | .object members => ascii '\x7b' :: (writeMembers members ++ [ascii '\x7d'])

def writeItems : List (Json Bytes) → Bytes
  | [] => []
  | item :: items =>
    item.write ++ (commaBefore items ++ writeItems items)

def writeMembers : List (Bytes × Json Bytes) → Bytes
  | [] => []
  | (key, value) :: members =>
    writeString key ++ ascii ':' :: (value.write ++ (commaBefore members ++ writeMembers members))

end

mutual

/-- The strings of a value are all UTF-8. -/
def Json.AllUtf8 : Json Bytes → Prop
  | .string bytes => IsUtf8 bytes
  | .number _ => True
  | .array items => AllUtf8Items items
  | .object members => AllUtf8Members members

def AllUtf8Items : List (Json Bytes) → Prop
  | [] => True
  | item :: items => item.AllUtf8 ∧ AllUtf8Items items

def AllUtf8Members : List (Bytes × Json Bytes) → Prop
  | [] => True
  | (key, value) :: members => (IsUtf8 key ∧ value.AllUtf8) ∧ AllUtf8Members members

end

mutual

/-- The bytes of the strings of a value. -/
def Json.encoded : Json (List Char) → Json Bytes
  | .string text => .string (encode text)
  | .number n => .number n
  | .array items => .array (encodedItems items)
  | .object members => .object (encodedMembers members)

def encodedItems : List (Json (List Char)) → List (Json Bytes)
  | [] => []
  | item :: items => item.encoded :: encodedItems items

def encodedMembers : List (List Char × Json (List Char)) → List (Bytes × Json Bytes)
  | [] => []
  | (key, value) :: members => (encode key, value.encoded) :: encodedMembers members

end

lemma write_string (bytes : Bytes) : (Json.string bytes).write = writeString bytes := rfl

lemma write_number (n : ℕ) : (Json.number n : Json Bytes).write = decimal n := rfl

lemma write_array (items : List (Json Bytes)) :
    (Json.array items).write = ascii '[' :: (writeItems items ++ [ascii ']']) := rfl

/-- A name with its value. -/
def writeMember (member : Bytes × Json Bytes) : Bytes :=
  writeString member.1 ++ ascii ':' :: member.2.write

lemma writeItems_cons (item : Json Bytes) (items : List (Json Bytes)) :
    writeItems (item :: items) = item.write ++ items.flatMap fun next => ascii ',' :: next.write := by
  induction items generalizing item with
  | nil => rfl
  | cons next items ih =>
    rw [writeItems, ih next]
    rfl

lemma writeMembers_cons (member : Bytes × Json Bytes) (members : List (Bytes × Json Bytes)) :
    writeMembers (member :: members) =
      writeMember member ++ members.flatMap fun next => ascii ',' :: writeMember next := by
  induction members generalizing member with
  | nil =>
    obtain ⟨key, value⟩ := member
    simp [writeMembers, writeMember, commaBefore]
  | cons next members ih =>
    obtain ⟨key, value⟩ := member
    rw [writeMembers, ih next]
    simp [writeMember, commaBefore]

/-! ## Strings -/

/-- The bytes are ASCII. -/
def IsAscii (bytes : Bytes) : Prop := ∀ b ∈ bytes, b.toNat < 128

lemma isUtf8_cons {b : UInt8} {bytes : Bytes} (hb : b.toNat < 128) :
    IsUtf8 (b :: bytes) ↔ IsUtf8 bytes := by
  have hcut : IsUtf8 ([] ++ b :: bytes) ↔ IsUtf8 [] ∧ IsUtf8 bytes := isUtf8_append_cons hb
  exact hcut.trans (and_iff_right isUtf8_nil)

lemma isUtf8_append_singleton {b : UInt8} {bytes : Bytes} (hb : b.toNat < 128) :
    IsUtf8 (bytes ++ [b]) ↔ IsUtf8 bytes :=
  (isUtf8_append_cons hb).trans (and_iff_left isUtf8_nil)

lemma IsAscii.append_iff {front : Bytes} (h : IsAscii front) (back : Bytes) :
    IsUtf8 (front ++ back) ↔ IsUtf8 back := by
  induction front with
  | nil => exact Iff.rfl
  | cons b front ih =>
    rw [List.cons_append, isUtf8_cons (h b List.mem_cons_self)]
    exact ih fun b hb => h b (List.mem_cons_of_mem _ hb)

lemma IsAscii.isUtf8 {bytes : Bytes} (h : IsAscii bytes) : IsUtf8 bytes := by
  have happend := h.append_iff []
  rw [List.append_nil] at happend
  exact happend.mpr isUtf8_nil

lemma isAscii_of_all {bytes : Bytes} (h : bytes.all (fun b => decide (b.toNat < 128)) = true) :
    IsAscii bytes :=
  fun b hb => of_decide_eq_true (List.all_eq_true.mp h b hb)

/-- **What is written for a byte:** an escape for the character that it is, a code for a control
character, or the byte itself. -/
lemma escapeByte_cases (b : UInt8) :
    (∃ e c, jsonEscape e = some c ∧ b = ascii c ∧ c.toNat < 128 ∧ (ascii e).toNat < 128 ∧
      escapeByte b = [ascii '\\', ascii e]) ∨
    (b.toNat < 32 ∧ escapeByte b = [ascii '\\', ascii 'u', ascii '0', ascii '0',
      hexDigit (b.toNat / 16), hexDigit (b.toNat % 16)]) ∨
    (b ≠ ascii '"' ∧ b ≠ ascii '\\' ∧ 32 ≤ b.toNat ∧ escapeByte b = [b]) := by
  have hescape : ∀ e c, jsonEscape e = some c → c.toNat < 128 → (ascii e).toNat < 128 →
      b = ascii c → escapeByte b = [ascii '\\', ascii e] →
      ∃ e c, jsonEscape e = some c ∧ b = ascii c ∧ c.toNat < 128 ∧ (ascii e).toNat < 128 ∧
        escapeByte b = [ascii '\\', ascii e] :=
    fun e c he hc he' hb h => ⟨e, c, he, hb, hc, he', h⟩
  by_cases hquote : b = ascii '"'
  · exact .inl (hescape '"' '"' rfl (by decide) (by decide) hquote (if_pos hquote))
  by_cases hbackslash : b = ascii '\\'
  · refine .inl (hescape '\\' '\\' rfl (by decide) (by decide) hbackslash ?_)
    rw [escapeByte, if_neg hquote, if_pos hbackslash]
  by_cases hline : b = ascii '\n'
  · refine .inl (hescape 'n' '\n' rfl (by decide) (by decide) hline ?_)
    rw [escapeByte, if_neg hquote, if_neg hbackslash, if_pos hline]
  by_cases hreturn : b = ascii '\r'
  · refine .inl (hescape 'r' '\r' rfl (by decide) (by decide) hreturn ?_)
    rw [escapeByte, if_neg hquote, if_neg hbackslash, if_neg hline, if_pos hreturn]
  by_cases htab : b = ascii '\t'
  · refine .inl (hescape 't' '\t' rfl (by decide) (by decide) htab ?_)
    rw [escapeByte, if_neg hquote, if_neg hbackslash, if_neg hline, if_neg hreturn, if_pos htab]
  by_cases hback : b = 8
  · refine .inl (hescape 'b' '\x08' rfl (by decide) (by decide) hback ?_)
    rw [escapeByte, if_neg hquote, if_neg hbackslash, if_neg hline, if_neg hreturn, if_neg htab,
      if_pos hback]
  by_cases hfeed : b = 12
  · refine .inl (hescape 'f' '\x0c' rfl (by decide) (by decide) hfeed ?_)
    rw [escapeByte, if_neg hquote, if_neg hbackslash, if_neg hline, if_neg hreturn, if_neg htab,
      if_neg hback, if_pos hfeed]
  have hrest : escapeByte b = if b < 32 then [ascii '\\', ascii 'u', ascii '0', ascii '0',
      hexDigit (b.toNat / 16), hexDigit (b.toNat % 16)] else [b] := by
    rw [escapeByte, if_neg hquote, if_neg hbackslash, if_neg hline, if_neg hreturn, if_neg htab,
      if_neg hback, if_neg hfeed]
  by_cases hcontrol : b < 32
  · exact .inr (.inl ⟨UInt8.lt_iff_toNat_lt.mp hcontrol, hrest.trans (if_pos hcontrol)⟩)
  · have hle : 32 ≤ b.toNat := by
      rw [UInt8.lt_iff_toNat_lt] at hcontrol
      exact Nat.le_of_not_lt hcontrol
    exact .inr (.inr ⟨hquote, hbackslash, hle, hrest.trans (if_neg hcontrol)⟩)

lemma toNat_ascii {c : Char} (hc : c.toNat < 128) : (ascii c).toNat = c.toNat := by
  rw [ascii, UInt8.toNat_ofNat', Nat.mod_eq_of_lt (by omega)]

/-- A byte from 128 on is copied. -/
lemma escapeByte_of_le {b : UInt8} (hb : 128 ≤ b.toNat) : escapeByte b = [b] := by
  rcases escapeByte_cases b with ⟨e, c, -, rfl, hc, -⟩ | ⟨hlt, -⟩ | ⟨-, -, -, h⟩
  · rw [toNat_ascii hc] at hb
    omega
  · omega
  · exact h

lemma flatMap_escapeByte_of_le {bytes : Bytes} (h : ∀ b ∈ bytes, 128 ≤ b.toNat) :
    bytes.flatMap escapeByte = bytes := by
  induction bytes with
  | nil => rfl
  | cons b bytes ih =>
    rw [List.flatMap_cons, escapeByte_of_le (h b List.mem_cons_self),
      ih fun b hb => h b (List.mem_cons_of_mem _ hb)]
    rfl

/-- What is written for a byte below 128 is ASCII. -/
lemma isAscii_escapeByte {b : UInt8} (hb : b.toNat < 128) :
    escapeByte b ≠ [] ∧ IsAscii (escapeByte b) := by
  rcases escapeByte_cases b with ⟨e, c, -, -, -, he, h⟩ | ⟨hlt, h⟩ | ⟨-, -, -, h⟩
  · rw [h]
    refine ⟨List.cons_ne_nil _ _, fun d hd => ?_⟩
    rcases List.mem_cons.mp hd with rfl | hd
    · decide
    · rwa [List.mem_singleton.mp hd]
  · rw [h]
    have hdigit : ∀ n < 16, (hexDigit n).toNat < 128 := by decide
    refine ⟨List.cons_ne_nil _ _, fun d hd => ?_⟩
    simp only [List.mem_cons, List.not_mem_nil, or_false] at hd
    rcases hd with rfl | rfl | rfl | rfl | rfl | rfl
    · decide
    · decide
    · decide
    · decide
    · exact hdigit _ (by omega)
    · exact hdigit _ (by omega)
  · rw [h]
    refine ⟨List.cons_ne_nil _ _, fun d hd => ?_⟩
    rwa [List.mem_singleton.mp hd]

/-- **Escaping** keeps what is UTF-8, and makes nothing UTF-8 that was not. -/
lemma isUtf8_escaped (bytes : Bytes) : IsUtf8 (bytes.flatMap escapeByte) ↔ IsUtf8 bytes := by
  induction hlength : bytes.length using Nat.strongRecOn generalizing bytes with
  | ind length ih =>
    subst hlength
    have hsplit : bytes.takeWhile (fun b => decide (128 ≤ b.toNat)) ++
        bytes.dropWhile (fun b => decide (128 ≤ b.toNat)) = bytes :=
      List.takeWhile_append_dropWhile
    have hhigh : ∀ b ∈ bytes.takeWhile fun b => decide (128 ≤ b.toNat), 128 ≤ b.toNat :=
      fun b hb => by
        have hle := List.mem_takeWhile_imp (p := fun b : UInt8 => decide (128 ≤ b.toNat)) hb
        exact of_decide_eq_true hle
    rcases hrest : bytes.dropWhile fun b => decide (128 ≤ b.toNat) with _ | ⟨b, back⟩
    · rw [hrest, List.append_nil] at hsplit
      rw [hsplit] at hhigh
      rw [flatMap_escapeByte_of_le hhigh]
    · have hb : b.toNat < 128 := by
        have hnot := List.head_dropWhile_not (fun b => decide (128 ≤ b.toNat)) (l := bytes)
          (by rw [hrest]; exact List.cons_ne_nil _ _)
        simp only [hrest, List.head_cons, decide_eq_false_iff_not] at hnot
        omega
      obtain ⟨hne, hascii⟩ := isAscii_escapeByte hb
      rcases hescaped : escapeByte b with _ | ⟨e, es⟩
      · exact absurd hescaped hne
      · rw [hescaped] at hascii
        have hback : back.length < bytes.length := by
          rw [← hsplit, hrest, List.length_append, List.length_cons]
          omega
        rw [← hsplit, hrest, List.flatMap_append, flatMap_escapeByte_of_le hhigh,
          List.flatMap_cons, hescaped, List.cons_append,
          isUtf8_append_cons (hascii e List.mem_cons_self),
          IsAscii.append_iff (fun b hb => hascii b (List.mem_cons_of_mem _ hb)),
          isUtf8_append_cons hb, ih _ hback back rfl]

lemma isUtf8_writeString (bytes : Bytes) : IsUtf8 (writeString bytes) ↔ IsUtf8 bytes := by
  rw [writeString, quote, isUtf8_cons (by decide), isUtf8_append_singleton (by decide),
    isUtf8_escaped]

/-- **A written string denotes its text.** -/
lemma denotesText_escaped (text : List Char) :
    DenotesText text ((encode text).flatMap escapeByte) := by
  induction text with
  | nil => exact .nil
  | cons c text ih =>
    rw [encode_cons, List.flatMap_append]
    rcases utf8EncodeChar_cases c with ⟨hsmall, hone⟩ | ⟨hlarge, hhigh⟩
    · have hbyte := toNat_ascii hsmall
      rw [hone, List.flatMap_singleton]
      change DenotesText _ (escapeByte (ascii c) ++ _)
      rcases escapeByte_cases (ascii c) with ⟨e, c', he, hc, hc', -, h⟩ | ⟨hlt, h⟩ | h
      · have hnat := congrArg UInt8.toNat hc
        rw [hbyte, toNat_ascii hc'] at hnat
        obtain rfl : c = c' := Char.ext (UInt32.toNat_inj.mp hnat)
        rw [h]
        exact .escape he ih
      · rw [hbyte] at hlt h
        have hcode := DenotesText.unicode (by omega : c.toNat < 65536) ih
        have hhigh : c.toNat / 4096 = 0 := by omega
        have hmiddle : c.toNat / 256 % 16 = 0 := by omega
        have hlow : c.toNat / 16 % 16 = c.toNat / 16 := by omega
        rw [hhigh, hmiddle, hlow] at hcode
        rw [h]
        exact hcode
      · obtain ⟨hquote, hescape, hle, h⟩ := h
        rw [h]
        change DenotesText _ ([UInt8.ofNat c.toNat] ++ _)
        rw [← hone]
        refine .plain (hbyte ▸ hle) ?_ ?_ ih
        · rintro rfl
          exact hquote rfl
        · rintro rfl
          exact hescape rfl
    · have hcopy := flatMap_escapeByte_of_le hhigh
      rw [hcopy]
      refine .plain (by omega) ?_ ?_ ih <;> rintro rfl <;> exact absurd hlarge (by decide)

/-! ## Numbers -/

lemma isAscii_decimal (n : ℕ) : IsAscii (decimal n) := by
  intro b hb
  obtain ⟨c, hc, rfl⟩ := List.mem_map.mp hb
  have hdigit := Nat.isDigit_of_mem_toDigits (by decide) (by decide) hc
  simp only [Char.isDigit, Bool.and_eq_true, decide_eq_true_eq] at hdigit
  have hle : c.toNat ≤ 57 := hdigit.2
  rw [ascii, UInt8.toNat_ofNat', Nat.mod_eq_of_lt (by omega)]
  omega

/-! ## Values -/

/-- A part with a comma behind it, or at the end. -/
lemma isUtf8_part {α : Type} (bytes rest : Bytes) (items : List α) (hnil : items = [] → rest = []) :
    IsUtf8 (bytes ++ (commaBefore items ++ rest)) ↔ IsUtf8 bytes ∧ IsUtf8 rest := by
  cases items with
  | nil =>
    rw [hnil rfl, commaBefore, List.append_nil, List.append_nil]
    exact (and_iff_left isUtf8_nil).symm
  | cons item items => exact isUtf8_append_cons (by decide)

mutual

/-- **The bytes of a value are UTF-8** where all its strings are, and only there. -/
lemma Json.isUtf8_write : ∀ value : Json Bytes, IsUtf8 value.write ↔ value.AllUtf8
  | .string bytes => by
    rw [Json.write, Json.AllUtf8, isUtf8_writeString]
  | .number n => by
    rw [Json.write, Json.AllUtf8]
    exact iff_of_true (isAscii_decimal n).isUtf8 trivial
  | .array items => by
    rw [Json.write, Json.AllUtf8, isUtf8_cons (by decide), isUtf8_append_singleton (by decide),
      isUtf8_writeItems items]
  | .object members => by
    rw [Json.write, Json.AllUtf8, isUtf8_cons (by decide), isUtf8_append_singleton (by decide),
      isUtf8_writeMembers members]

lemma isUtf8_writeItems : ∀ items : List (Json Bytes),
    IsUtf8 (writeItems items) ↔ AllUtf8Items items
  | [] => iff_of_true isUtf8_nil trivial
  | item :: items => by
    rw [writeItems, AllUtf8Items, isUtf8_part _ _ _ (by rintro rfl; rfl), item.isUtf8_write,
      isUtf8_writeItems items]

lemma isUtf8_writeMembers : ∀ members : List (Bytes × Json Bytes),
    IsUtf8 (writeMembers members) ↔ AllUtf8Members members
  | [] => iff_of_true isUtf8_nil trivial
  | (key, value) :: members => by
    rw [writeMembers, AllUtf8Members, isUtf8_append_cons (by decide), isUtf8_writeString,
      isUtf8_part _ _ _ (by rintro rfl; rfl), value.isUtf8_write, isUtf8_writeMembers members,
      and_assoc]

end

mutual

/-- **What is written for a value denotes it.** -/
lemma Json.denotes_write : ∀ value : Json (List Char), Denotes value value.encoded.write
  | .string text => .string (denotesText_escaped text)
  | .number n => .number n
  | .array items => .array (denotes_writeItems items)
  | .object members => .object (denotes_writeMembers members)

lemma denotes_writeItems : ∀ items : List (Json (List Char)),
    DenotesItems items (writeItems (encodedItems items))
  | [] => .nil
  | [item] => by
    have h := item.denotes_write
    simpa [encodedItems, writeItems, commaBefore] using DenotesItems.one h
  | item :: next :: items => .cons item.denotes_write (denotes_writeItems (next :: items))

lemma denotes_writeMembers : ∀ members : List (List Char × Json (List Char)),
    DenotesMembers members (writeMembers (encodedMembers members))
  | [] => .nil
  | [(key, value)] => by
    have h := value.denotes_write
    simpa [encodedMembers, writeMembers, writeString, commaBefore] using
      DenotesMembers.one (denotesText_escaped key) h
  | (key, value) :: next :: members =>
    .cons (denotesText_escaped key) value.denotes_write (denotes_writeMembers (next :: members))

end

mutual

/-- A value whose strings are UTF-8 is the bytes of a value. -/
lemma Json.exists_encoded : ∀ value : Json Bytes, value.AllUtf8 →
    ∃ read : Json (List Char), read.encoded = value
  | .string bytes, h => by
    obtain ⟨text, rfl⟩ := h
    exact ⟨.string text, rfl⟩
  | .number n, _ => ⟨.number n, rfl⟩
  | .array items, h => by
    obtain ⟨read, rfl⟩ := exists_encodedItems items h
    exact ⟨.array read, rfl⟩
  | .object members, h => by
    obtain ⟨read, rfl⟩ := exists_encodedMembers members h
    exact ⟨.object read, rfl⟩

lemma exists_encodedItems : ∀ items : List (Json Bytes), AllUtf8Items items →
    ∃ read, encodedItems read = items
  | [], _ => ⟨[], rfl⟩
  | item :: items, h => by
    obtain ⟨first, rfl⟩ := item.exists_encoded h.1
    obtain ⟨rest, rfl⟩ := exists_encodedItems items h.2
    exact ⟨first :: rest, rfl⟩

lemma exists_encodedMembers : ∀ members : List (Bytes × Json Bytes), AllUtf8Members members →
    ∃ read, encodedMembers read = members
  | [], _ => ⟨[], rfl⟩
  | (key, value) :: members, h => by
    obtain ⟨⟨⟨name, rfl⟩, hvalue⟩, hmembers⟩ := h
    obtain ⟨first, rfl⟩ := value.exists_encoded hvalue
    obtain ⟨rest, rfl⟩ := exists_encodedMembers members hmembers
    exact ⟨(name, first) :: rest, rfl⟩

end

mutual

/-- The bytes of texts are UTF-8. -/
lemma Json.allUtf8_encoded : ∀ value : Json (List Char), value.encoded.AllUtf8
  | .string text => ⟨text, rfl⟩
  | .number _ => trivial
  | .array items => allUtf8_encodedItems items
  | .object members => allUtf8_encodedMembers members

lemma allUtf8_encodedItems : ∀ items : List (Json (List Char)), AllUtf8Items (encodedItems items)
  | [] => trivial
  | item :: items => ⟨item.allUtf8_encoded, allUtf8_encodedItems items⟩

lemma allUtf8_encodedMembers : ∀ members : List (List Char × Json (List Char)),
    AllUtf8Members (encodedMembers members)
  | [] => trivial
  | (key, value) :: members =>
    ⟨⟨⟨key, rfl⟩, value.allUtf8_encoded⟩, allUtf8_encodedMembers members⟩

end

end ModernC.Framework

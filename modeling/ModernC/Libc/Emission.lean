import ModernC.Libc.Stdio

/-!
# What is emitted

What the formatter puts into a destination is a text that does not depend on it.
-/

namespace ModernC.Libc

open Framework

/-! ## Texts of conversions -/

/-- A text in a field. -/
def fieldText (f : Flags) (width : ℕ) (text : List UInt8) : List UInt8 :=
  if f.minus then text ++ List.replicate (width - text.length) 32
  else List.replicate (width - text.length) 32 ++ text

/-- The digits with the zeros that the precision asks for. -/
def digitsText (prec : ℤ) (digits : List UInt8) : List UInt8 :=
  List.replicate (zerosForPrec prec digits.length) 48 ++ digits.reverse

/-- What stands in front of the digits. -/
def leadText (negative : Bool) (base : ℕ) (upper : Bool) (f : Flags) (digits : List UInt8) :
    List UInt8 :=
  (if signChar negative f ≠ 0 then [signChar negative f] else []) ++ prefixChars base upper f digits

/-- Zeros fill the field. -/
def zeroPads (f : Flags) (prec : ℤ) : Bool := f.zero && !f.minus && decide (prec < 0)

/-- A number in its field: what leads it, and its digits. -/
def numberText (f : Flags) (width : ℕ) (prec : ℤ) (lead body : List UInt8) : List UInt8 :=
  if zeroPads f prec then
    lead ++ List.replicate (width - (lead.length + body.length)) 48 ++ body
  else fieldText f width (lead ++ body)

def intText (mag : ℕ) (negative : Bool) (base : ℕ) (upper : Bool) (f : Flags) (width : ℕ)
    (prec : ℤ) : Option (List UInt8) :=
  (emittedDigits mag base upper prec).map fun digits =>
    numberText f width prec (leadText negative base upper f digits) (digitsText prec digits)

def signedText (d : Directive) (args : Args) (k : ℕ) : Option (List UInt8) :=
  let v := if d.length.wide then argI64 args k else argI32 args k
  (signedMagnitude v).bind fun mag => intText mag (v < 0) 10 false d.flags d.width d.prec

def unsignedText (d : Directive) (base : ℕ) (upper : Bool) (args : Args) (k : ℕ) :
    Option (List UInt8) :=
  let v := if d.length.wide then argU64 args k else argU32 args k
  intText v false base upper d.flags d.width d.prec

/-- The text of a conversion, and the next argument. -/
def convertText (m : Memory) (d : Directive) (spec : UInt8) (args : Args) (k : ℕ) :
    Option (List UInt8 × ℕ) :=
  if spec = 100 ∨ spec = 105 then (signedText d args k).map fun text => (text, k + 1)
  else if spec = 117 then (unsignedText d 10 false args k).map fun text => (text, k + 1)
  else if spec = 120 then (unsignedText d 16 false args k).map fun text => (text, k + 1)
  else if spec = 88 then (unsignedText d 16 true args k).map fun text => (text, k + 1)
  else if spec = 111 then (unsignedText d 8 false args k).map fun text => (text, k + 1)
  else if spec = 99 then
    some (fieldText d.flags d.width [UInt8.ofNat (argU32 args k)], k + 1)
  else if spec = 115 then
    (emittedString m (argU64 args k) d.prec).map fun text =>
      (fieldText d.flags d.width text, k + 1)
  else if spec = 112 then
    (intText (argU64 args k) false 16 false { d.flags with hash := true } d.width (-1)).map
      fun text => (text, k + 1)
  else if spec = 37 then some ([37], k)
  else some ([37, spec], k)

/-! ## Emitting them -/

section

variable {σ : Type} {putc : σ → UInt8 → Option σ} {s : σ}

lemma sinkPad_eq (b : UInt8) (n : ℕ) : sinkPad putc b n s = (List.replicate n b).foldlM putc s := by
  induction n generalizing s with
  | zero => rfl
  | succ n ih =>
    rw [sinkPad, List.replicate_succ, List.foldlM_cons]
    exact congrArg _ (funext fun s => ih)

lemma padIf_eq (pads : Bool) (b : UInt8) (n : ℕ) :
    padIf putc pads b n s = (if pads then List.replicate n b else []).foldlM putc s := by
  rw [padIf]
  cases pads with
  | false => rfl
  | true => exact sinkPad_eq b n

lemma putIf_eq (puts : Bool) (b : UInt8) :
    putIf putc puts b s = (if puts then [b] else []).foldlM putc s := by
  rw [putIf]
  cases puts with
  | false => rfl
  | true =>
    show putc s b = ([b] : List UInt8).foldlM putc s
    rw [List.foldlM_cons]
    exact (bind_pure _).symm

lemma pad_eq (width length : ℕ) :
    (if length < width then width - length else 0) = width - length := by
  split <;> omega

lemma length_leadText (negative : Bool) (base : ℕ) (upper : Bool) (f : Flags)
    (digits : List UInt8) : (leadText negative base upper f digits).length =
      (if signChar negative f ≠ 0 then 1 else 0) + (prefixChars base upper f digits).length := by
  rw [leadText, List.length_append]
  split <;> rfl

lemma length_digitsText (prec : ℤ) (digits : List UInt8) :
    (digitsText prec digits).length = zerosForPrec prec digits.length + digits.length := by
  rw [digitsText, List.length_append, List.length_replicate, List.length_reverse]

/-- The parts of a number are the number. -/
lemma numberText_eq (f : Flags) (width : ℕ) (prec : ℤ) (lead body : List UInt8) :
    (if !f.minus && !zeroPads f prec then
        List.replicate (width - (lead.length + body.length)) 32 else []) ++ (lead ++
      ((if zeroPads f prec then
        List.replicate (width - (lead.length + body.length)) 48 else []) ++ (body ++
      if f.minus then List.replicate (width - (lead.length + body.length)) 32 else []))) =
    numberText f width prec lead body := by
  rw [numberText]
  cases hzero : zeroPads f prec with
  | true =>
    have hminus : f.minus = false := by
      rw [zeroPads, Bool.and_eq_true, Bool.and_eq_true, Bool.not_eq_true'] at hzero
      exact hzero.1.2
    rw [hminus]
    simp
  | false =>
    cases hminus : f.minus with
    | true | false => simp [fieldText, hminus]

/-- **A number puts out its text.** -/
lemma emitInt_eq (mag : ℕ) (negative : Bool) (base : ℕ) (upper : Bool) (f : Flags) (width : ℕ)
    (prec : ℤ) : emitInt putc s mag negative base upper f width prec =
      (intText mag negative base upper f width prec).bind fun text => text.foldlM putc s := by
  rw [emitInt, intText]
  cases hdigits : emittedDigits mag base upper prec with
  | none => rfl
  | some digits =>
    have hbody : (if signChar negative f ≠ 0 then 1 else 0) +
        (prefixChars base upper f digits).length + zerosForPrec prec digits.length + digits.length =
        (leadText negative base upper f digits).length + (digitsText prec digits).length := by
      rw [length_leadText, length_digitsText]
      omega
    rw [Option.bind_eq_bind, Option.bind_some, Option.map_some, Option.bind_some]
    dsimp only
    rw [hbody, ← numberText_eq, pad_eq, ← zeroPads]
    simp only [padIf_eq, putIf_eq, putAll, sinkPad_eq, List.foldlM_append, leadText, digitsText,
      bind_assoc, decide_eq_true_eq]

/-- A byte puts out its text. -/
lemma emitChar_eq (c : UInt8) (f : Flags) (width : ℕ) :
    emitChar putc s c f width = (fieldText f width [c]).foldlM putc s := by
  have hpad : (if 1 < width then width - 1 else 0) = width - [c].length := pad_eq width 1
  rw [emitChar]
  rw [hpad, fieldText]
  cases f.minus with
  | false => simp [padIf_eq, List.foldlM_append]
  | true => simp [padIf_eq]

lemma emitString_eq (text : List UInt8) (f : Flags) (width : ℕ) :
    emitString putc s text f width = (fieldText f width text).foldlM putc s := by
  rw [emitString, fieldText]
  rw [pad_eq]
  cases f.minus with
  | false | true => simp [padIf_eq, putAll, List.foldlM_append]

lemma convertSigned_eq (d : Directive) (args : Args) (k : ℕ) :
    convertSigned putc d args k s = (signedText d args k).bind fun text => text.foldlM putc s := by
  rw [convertSigned, signedText]
  simp only [emitInt_eq, Option.bind_eq_bind, Option.bind_assoc]

lemma convertUnsigned_eq (d : Directive) (base : ℕ) (upper : Bool) (args : Args) (k : ℕ) :
    convertUnsigned putc d base upper args k s =
      (unsignedText d base upper args k).bind fun text => text.foldlM putc s := by
  rw [convertUnsigned, unsignedText]
  exact emitInt_eq _ _ _ _ _ _ _

/-- What is emitted goes on with the next argument. -/
lemma map_emitted {text : Option (List UInt8)} {k : ℕ} :
    ((text.bind fun text => text.foldlM putc s).map fun s => (s, k)) =
      (text.map fun text => (text, k)).bind fun (text, k) =>
        (text.foldlM putc s).map fun s => (s, k) := by
  cases text <;> rfl

/-- **A conversion puts out its text.** -/
lemma convert_eq (m : Memory) (d : Directive) (spec : UInt8) (args : Args) (k : ℕ) :
    convert putc m d spec args k s = (convertText m d spec args k).bind fun (text, k) =>
      (text.foldlM putc s).map fun s => (s, k) := by
  rw [convert, convertText]
  simp only [convertSigned_eq, convertUnsigned_eq, emitInt_eq, emitChar_eq, emitString_eq,
    map_emitted]
  -- the chain of tests on the byte is the same on both sides
  by_cases h : spec = 100 ∨ spec = 105
  · rw [if_pos h, if_pos h]
  rw [if_neg h, if_neg h]
  clear h
  by_cases h : spec = 117
  · rw [if_pos h, if_pos h]
  rw [if_neg h, if_neg h]
  clear h
  by_cases h : spec = 120
  · rw [if_pos h, if_pos h]
  rw [if_neg h, if_neg h]
  clear h
  by_cases h : spec = 88
  · rw [if_pos h, if_pos h]
  rw [if_neg h, if_neg h]
  clear h
  by_cases h : spec = 111
  · rw [if_pos h, if_pos h]
  rw [if_neg h, if_neg h]
  clear h
  by_cases h : spec = 99
  · rw [if_pos h, if_pos h, Option.bind_some]
  rw [if_neg h, if_neg h]
  clear h
  by_cases h : spec = 115
  · rw [if_pos h, if_pos h]
    cases emittedString m (argU64 args k) d.prec with
    | none => rfl
    | some text => exact Option.map_eq_bind.symm
  rw [if_neg h, if_neg h]
  clear h
  by_cases h : spec = 112
  · rw [if_pos h, if_pos h]
  rw [if_neg h, if_neg h]
  clear h
  by_cases h : spec = 37
  · rw [if_pos h, if_pos h, Option.bind_some, List.foldlM_cons]
    exact congrArg (Option.map _) (bind_pure _).symm
  · rw [if_neg h, if_neg h]
    simp only [Option.bind_some, List.foldlM_cons, List.foldlM_nil]
    cases putc s 37 with
    | none => rfl
    | some s =>
      show (putc s spec).bind (fun s => some (s, k)) = ((putc s spec).bind some).map fun s => (s, k)
      cases putc s spec <;> rfl

end

/-! ## Whole formats -/

/-- Every destination. -/
def Emits (run : ∀ σ : Type, (σ → UInt8 → Option σ) → σ → Option σ)
    (text : Option (List UInt8)) : Prop :=
  ∀ (σ : Type) (putc : σ → UInt8 → Option σ) (s : σ),
    run σ putc s = text.bind fun text => text.foldlM putc s

/-- A text in front of the rest. -/
lemma Emits.append {run : ∀ σ : Type, (σ → UInt8 → Option σ) → σ → Option σ}
    {text : Option (List UInt8)} (h : Emits run text) (front : List UInt8) :
    Emits (fun σ putc s => (front.foldlM putc s).bind (run σ putc))
      (text.map fun text => front ++ text) := by
  intro σ putc s
  show (front.foldlM putc s).bind (run σ putc) = _
  cases text with
  | none =>
    have hrun : run σ putc = fun _ => none := funext fun s => h σ putc s
    rw [hrun]
    cases front.foldlM putc s <;> rfl
  | some text =>
    have hrun : run σ putc = fun s => text.foldlM putc s := funext fun s => h σ putc s
    rw [hrun, Option.map_some, Option.bind_some, List.foldlM_append]
    rfl

/-- A directive puts out the text of its conversion. -/
lemma doFormat_directive {σ : Type} {putc : σ → UInt8 → Option σ} {s : σ} {m : Memory} {args : Args}
    {fuel p k q q' k' next k'' : ℕ} {d : Directive} {front : List UInt8} (hpercent : m p = 37)
    (hnext : checkedAdd 64 p 1 = some q)
    (hdirective : parseDirective m args q k = some (d, q', k')) (hend : m q' ≠ 0)
    (hafter : checkedAdd 64 q' 1 = some next)
    (hconvert : convertText m d (m q') args k' = some (front, k'')) :
    doFormat putc m args (fuel + 1) p k s =
      (front.foldlM putc s).bind (doFormat putc m args fuel next k'') := by
  have hzero : m p ≠ 0 := by
    rw [hpercent]
    decide
  simp only [doFormat, if_neg hzero, if_neg (not_not_intro hpercent), hnext,
    Option.bind_eq_bind, Option.bind_some, hdirective, if_neg hend, hafter,
    convert_eq, hconvert, Option.bind_map]
  rfl

end ModernC.Libc

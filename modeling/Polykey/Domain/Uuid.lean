/-
# The uuid package

`UUIDPkg` asks two things of the uuid package.  This module is the package itself as far as the
code uses it: `Parse`, which accepts the dashed form, the dashed form in braces or after
`urn:uuid:`, and 32 bare digits, in either case; and the canonical text, dashed and lower case.
That the two fit together is `parse_text`, and gives the instance `googleUUID`.
-/
import Mathlib
import Polykey.Domain.Types

namespace Polykey

namespace UUID

/-! ## 1. Hexadecimal digits -/

/-- The lower-case digit for a value below 16. -/
def hexDigit (d : Nat) : Char :=
  if d < 10 then Char.ofNat (48 + d) else Char.ofNat (87 + d)

/-- The value of a hexadecimal digit of either case. -/
def hexValue (c : Char) : Option Nat :=
  if '0' ≤ c ∧ c ≤ '9' then some (c.toNat - 48)
  else if 'a' ≤ c ∧ c ≤ 'f' then some (c.toNat - 87)
  else if 'A' ≤ c ∧ c ≤ 'F' then some (c.toNat - 55)
  else none

theorem hexValue_hexDigit : ∀ d < 16, hexValue (hexDigit d) = some d := by decide

/-- The last `n` digits of a number, most significant first. -/
def toHex : Nat → Nat → List Char
  | 0, _ => []
  | n + 1, v => toHex n (v / 16) ++ [hexDigit (v % 16)]

/-- Read digits onto an accumulator; `none` if one is no digit. -/
def ofHex : Nat → List Char → Option Nat
  | acc, [] => some acc
  | acc, c :: cs => (hexValue c).bind fun d => ofHex (acc * 16 + d) cs

@[simp] theorem length_toHex (n v : Nat) : (toHex n v).length = n := by
  induction n generalizing v with
  | zero => rfl
  | succ n ih => simp [toHex, ih]

theorem ofHex_append (acc : Nat) (cs ds : List Char) :
    ofHex acc (cs ++ ds) = (ofHex acc cs).bind fun a => ofHex a ds := by
  induction cs generalizing acc with
  | nil => rfl
  | cons c cs ih => cases h : hexValue c <;> simp [ofHex, h, ih]

theorem ofHex_toHex (acc n v : Nat) :
    ofHex acc (toHex n v) = some (acc * 16 ^ n + v % 16 ^ n) := by
  induction n generalizing v with
  | zero => simp [toHex, ofHex, Nat.mod_one]
  | succ n ih =>
    have hd : hexValue (hexDigit (v % 16)) = some (v % 16) :=
      hexValue_hexDigit _ (Nat.mod_lt _ (by decide))
    have hmod : v % 16 ^ (n + 1) = v / 16 % 16 ^ n * 16 + v % 16 := by
      rw [pow_succ, Nat.mul_comm, Nat.mod_mul, Nat.mul_comm, Nat.add_comm]
    have hpow : acc * 16 ^ (n + 1) = acc * 16 ^ n * 16 := by rw [pow_succ, Nat.mul_assoc]
    simp only [toHex, ofHex_append, ih, ofHex, hd, Option.bind_some, hmod, hpow, Nat.add_mul,
      Nat.add_assoc]

/-! ## 2. Dashes -/

/-- Put a dash between groups of the given sizes. -/
def dash : List Nat → List Char → List Char
  | n :: m :: ns, cs => cs.take n ++ '-' :: dash (m :: ns) (cs.drop n)
  | _, cs => cs

/-- Take the dashes out again; `none` if one is missing or the length is wrong. -/
def undash : List Nat → List Char → Option (List Char)
  | n :: m :: ns, cs =>
    match cs.drop n with
    | '-' :: rest => (undash (m :: ns) rest).map (cs.take n ++ ·)
    | _ => none
  | ns, cs => if cs.length = ns.sum then some cs else none

theorem undash_dash (ns : List Nat) (cs : List Char) (h : cs.length = ns.sum) :
    undash ns (dash ns cs) = some cs := by
  induction ns generalizing cs with
  | nil => simpa [dash, undash] using h
  | cons n ns ih =>
    cases ns with
    | nil => simpa [dash, undash] using h
    | cons m ns =>
      have hn : n ≤ cs.length := by rw [h]; simp
      have htake : (cs.take n).length = n := by simp [hn]
      have hrest := ih (cs.drop n) (by simp [h])
      simp only [dash, undash, List.drop_append_of_le_length (Nat.le_of_eq htake.symm),
        List.take_append_of_le_length (Nat.le_of_eq htake.symm)]
      rw [List.drop_eq_nil_of_le (Nat.le_of_eq htake), List.nil_append]
      simp [hrest, List.take_take]

theorem length_dash (ns : List Nat) (cs : List Char) (hns : ns ≠ []) (h : cs.length = ns.sum) :
    (dash ns cs).length + 1 = cs.length + ns.length := by
  induction ns generalizing cs with
  | nil => exact absurd rfl hns
  | cons n ns ih =>
    cases ns with
    | nil => simp [dash]
    | cons m ns =>
      have hn : n ≤ cs.length := by rw [h]; simp
      have hrest := ih (cs.drop n) (by simp) (by simp [h])
      simp only [dash, List.length_append, List.length_cons, List.length_take,
        List.length_drop, Nat.min_eq_left hn] at hrest ⊢
      omega

/-! ## 3. Text and parsing -/

/-- The group sizes of the dashed form. -/
def groups : List Nat := [8, 4, 4, 4, 12]

/-- `UUID.String`. -/
def text (u : BitVec 128) : String := String.ofList (dash groups (toHex 32 u.toNat))

def parseDigits (cs : List Char) : Except Err (BitVec 128) :=
  match ofHex 0 cs with
  | some v => .ok (BitVec.ofNat 128 v)
  | none => .error (.new "invalid UUID format")

def parseDashed (cs : List Char) : Except Err (BitVec 128) :=
  match undash groups cs with
  | some digits => parseDigits digits
  | none => .error (.new "invalid UUID format")

/-- `len` of a text: the bytes of its UTF-8 encoding. -/
def byteLength (cs : List Char) : Nat := (cs.map Char.utf8Size).sum

/-- How `%q` prints a character.  Every character beyond ASCII is taken to be printable. -/
def quoteChar (c : Char) : List Char :=
  match [(7, 'a'), (8, 'b'), (9, 't'), (10, 'n'), (11, 'v'), (12, 'f'), (13, 'r'), (34, '\"'),
    (92, '\\')].lookup c.toNat with
  | some letter => ['\\', letter]
  | none => if c.toNat < 32 ∨ c.toNat = 127 then ['\\', 'x'] ++ toHex 2 c.toNat else [c]

/-- The first `n` bytes of a text as `%q` prints them.  Of a character that the cut goes through,
the bytes before the cut are printed one by one. -/
def quoteBytes : Nat → List Char → List Char
  | _, [] => []
  | n, c :: cs =>
    if c.utf8Size ≤ n then quoteChar c ++ quoteBytes (n - c.utf8Size) cs
    else ((String.utf8EncodeChar c).take n).flatMap fun b => ['\\', 'x'] ++ toHex 2 b.toNat

/-- `uuid.Parse`.  It tells the forms apart by their lengths in bytes.  A character beyond ASCII
takes several of them, so a text of the right length in bytes has then too few characters for
`undash` or one that is no digit. -/
def parse (s : String) : Except Err (BitVec 128) :=
  let cs := s.toList
  if byteLength cs = 36 then parseDashed cs
  else if byteLength cs = 36 + 9 then
    if (cs.take 9).map Char.toLower = "urn:uuid:".toList then parseDashed (cs.drop 9)
    else .error (.new (String.ofList
      ("invalid urn prefix: \"".toList ++ quoteBytes 9 cs ++ ['\"'])))
  -- the braces themselves are not looked at
  else if byteLength cs = 36 + 2 then parseDashed (cs.drop 1).dropLast
  else if byteLength cs = 32 then parseDigits cs
  else .error (.new ("invalid UUID length: " ++ toString (byteLength cs)))

theorem byteLength_eq_length (cs : List Char) (h : ∀ c ∈ cs, c.toNat ≤ 127) :
    byteLength cs = cs.length := by
  induction cs with
  | nil => rfl
  | cons c cs ih =>
    have hc : c.utf8Size = 1 := Char.utf8Size_eq_one_iff.mpr (h c (by simp))
    have hcs : byteLength cs = cs.length := ih fun d hd => h d (List.mem_cons_of_mem c hd)
    have hcons : byteLength (c :: cs) = c.utf8Size + byteLength cs := by simp [byteLength]
    rw [hcons, hc, hcs, List.length_cons, Nat.add_comm]

theorem hexDigit_ascii : ∀ d < 16, (hexDigit d).toNat ≤ 127 := by decide

theorem ascii_of_mem_toHex (n v : Nat) : ∀ c ∈ toHex n v, c.toNat ≤ 127 := by
  induction n generalizing v with
  | zero => simp [toHex]
  | succ n ih =>
    intro c hc
    rcases List.mem_append.mp hc with hc | hc
    · exact ih _ c hc
    · rw [List.mem_singleton.mp hc]
      exact hexDigit_ascii _ (Nat.mod_lt _ (by decide))

theorem mem_dash (ns : List Nat) (cs : List Char) : ∀ c ∈ dash ns cs, c = '-' ∨ c ∈ cs := by
  fun_induction dash ns cs with
  | case1 n m ns cs ih =>
    intro c hc
    rcases List.mem_append.mp hc with hc | hc
    · exact .inr (List.mem_of_mem_take hc)
    · rcases List.mem_cons.mp hc with hc | hc
      · exact .inl hc
      · exact (ih c hc).imp id List.mem_of_mem_drop
  | case2 => exact fun c hc => .inr hc

theorem length_text (u : BitVec 128) : (text u).length = 36 := by
  have h := length_dash groups (toHex 32 u.toNat) (by decide) (by simp [groups])
  rw [length_toHex] at h
  rw [text, String.length_ofList]
  simpa [groups] using h

/-- The canonical text parses back. -/
theorem parse_text (u : BitVec 128) : parse (text u) = .ok u := by
  have hlen : (dash groups (toHex 32 u.toNat)).length = 36 := by
    rw [← length_text u, text, String.length_ofList]
  have hascii : ∀ c ∈ dash groups (toHex 32 u.toNat), c.toNat ≤ 127 := by
    intro c hc
    rcases mem_dash _ _ c hc with rfl | hc
    · decide
    · exact ascii_of_mem_toHex _ _ c hc
  have hbytes : byteLength (dash groups (toHex 32 u.toNat)) = 36 :=
    (byteLength_eq_length _ hascii).trans hlen
  have hdash := undash_dash groups (toHex 32 u.toNat) (by simp [groups])
  have hhex : ofHex 0 (toHex 32 u.toNat) = some u.toNat := by
    rw [ofHex_toHex, Nat.mod_eq_of_lt (by simpa using u.isLt)]
    simp
  simp [parse, text, hbytes, parseDashed, hdash, parseDigits, hhex]

end UUID

/-- The uuid package the code is built with. -/
def googleUUID : UUIDPkg := ⟨UUID.parse, UUID.text, UUID.parse_text, UUID.length_text⟩

end Polykey

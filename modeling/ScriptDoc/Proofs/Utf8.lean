import Mathlib.Algebra.Group.Nat.Defs
import Mathlib.Tactic.SplitIfs
import ScriptDoc.Text.Utf8

/-! UTF-8 is read back exactly. Decoding gives a text if and only if the bytes are the encoding of
this text, and where the blocks of the input end makes no difference to that. -/
namespace ScriptDoc
namespace Utf8

def lastBytes : Nat → Nat → Bytes
  | 0, _ => []
  | count + 1, n => UInt8.ofNat (0x80 + n / 64 ^ count % 64) :: lastBytes count n

def Partial.Admits (begun : Partial) (n : Nat) : Prop :=
  n / 64 ^ begun.owed = begun.bits ∧ begun.low ≤ 0x80 + n / 64 ^ (begun.owed - 1) % 64 ∧
    0x80 + n / 64 ^ (begun.owed - 1) % 64 ≤ begun.high

/- Each code that a sequence can still become is a character, and its encoding goes on from there. -/
structure Partial.Sound (begun : Partial) : Prop where
  owes : 0 < begun.owed
  low : 0x80 ≤ begun.low
  high : begun.high ≤ 0xbf
  completes : ∀ n, begun.Admits n →
    n.isValidChar ∧ encodeChar (Char.ofNat n) = begun.bytes ++ lastBytes begun.owed n

theorem encodeCases {n : Nat} (valid : n.isValidChar) :
    (n < 0x80 ∧ encodeChar (Char.ofNat n) = [UInt8.ofNat n]) ∨
    (0x80 ≤ n ∧ n < 0x800 ∧
      encodeChar (Char.ofNat n) = UInt8.ofNat (0xc0 + n / 64) :: lastBytes 1 n) ∨
    (0x800 ≤ n ∧ n < 0x10000 ∧
      encodeChar (Char.ofNat n) = UInt8.ofNat (0xe0 + n / 4096) :: lastBytes 2 n) ∨
    (0x10000 ≤ n ∧
      encodeChar (Char.ofNat n) = UInt8.ofNat (0xf0 + n / 262144) :: lastBytes 3 n) := by
  have code : (Char.ofNat n).toNat = n := by
    rw [Char.ofNat, dif_pos valid]
    rfl
  simp only [encodeChar, code, lastBytes]
  split_ifs with one two three
  · exact Or.inl ⟨one, rfl⟩
  · exact Or.inr (Or.inl ⟨by omega, two, by simp⟩)
  · exact Or.inr (Or.inr (Or.inl ⟨by omega, three, by simp⟩))
  · exact Or.inr (Or.inr (Or.inr ⟨by omega, by simp⟩))

section FirstByte
variable {n : Nat} {b : UInt8}

theorem twoBytes (bits : n / 64 = b.toNat - 0xc0) (low : 0xc2 ≤ b.toNat) (high : b.toNat < 0xe0) :
    n.isValidChar ∧ encodeChar (Char.ofNat n) = b :: lastBytes 1 n := by
  have valid : n.isValidChar := Or.inl (by omega)
  have lead : UInt8.ofNat (0xc0 + n / 64) = b := by
    rw [show 0xc0 + n / 64 = b.toNat by omega, UInt8.ofNat_toNat]
  rcases encodeCases valid with ⟨_, -⟩ | ⟨_, _, same⟩ | ⟨_, _, -⟩ | ⟨_, -⟩
  · omega
  · exact ⟨valid, by rw [same, lead]⟩
  · omega
  · omega

/- The second byte keeps overlong forms and surrogates out. -/
theorem threeBytes (bits : n / 4096 = b.toNat - 0xe0) (low : 0xe0 ≤ b.toNat)
    (high : b.toNat < 0xf0) (long : b.toNat = 0xe0 → 0x20 ≤ n / 64 % 64)
    (scalar : b.toNat = 0xed → n / 64 % 64 ≤ 0x1f) :
    n.isValidChar ∧ encodeChar (Char.ofNat n) = b :: lastBytes 2 n := by
  have valid : n.isValidChar := by
    rcases Nat.lt_or_ge b.toNat 0xee with _ | _
    · exact Or.inl (by omega)
    · exact Or.inr (by omega)
  have lead : UInt8.ofNat (0xe0 + n / 4096) = b := by
    rw [show 0xe0 + n / 4096 = b.toNat by omega, UInt8.ofNat_toNat]
  rcases encodeCases valid with ⟨_, -⟩ | ⟨_, _, -⟩ | ⟨_, _, same⟩ | ⟨_, -⟩
  · omega
  · omega
  · exact ⟨valid, by rw [same, lead]⟩
  · omega

theorem fourBytes (bits : n / 262144 = b.toNat - 0xf0) (low : 0xf0 ≤ b.toNat)
    (high : b.toNat < 0xf5) (long : b.toNat = 0xf0 → 0x10 ≤ n / 4096 % 64)
    (scalar : b.toNat = 0xf4 → n / 4096 % 64 ≤ 0xf) :
    n.isValidChar ∧ encodeChar (Char.ofNat n) = b :: lastBytes 3 n := by
  have valid : n.isValidChar := Or.inr (by omega)
  have lead : UInt8.ofNat (0xf0 + n / 262144) = b := by
    rw [show 0xf0 + n / 262144 = b.toNat by omega, UInt8.ofNat_toNat]
  rcases encodeCases valid with ⟨_, -⟩ | ⟨_, _, -⟩ | ⟨_, _, -⟩ | ⟨_, same⟩
  · omega
  · omega
  · omega
  · exact ⟨valid, by rw [same, lead]⟩

end FirstByte

theorem startSound {b : UInt8} {begun : Partial} (step : start b = .more begun) :
    begun.Sound ∧ begun.bytes = [b] := by
  simp only [start] at step
  split at step
  · contradiction
  split at step
  · contradiction
  split at step
  · rename_i overlong high
    cases step
    refine ⟨⟨Nat.one_pos, Nat.le_refl _, Nat.le_refl _, ?_⟩, rfl⟩
    rintro n ⟨bits, -, -⟩
    exact twoBytes bits (Nat.le_of_not_lt overlong) high
  split at step
  · rename_i low high
    cases step
    refine ⟨⟨Nat.two_pos, by dsimp only; split <;> decide, by dsimp only; split <;> decide, ?_⟩, rfl⟩
    rintro n ⟨bits, least, most⟩
    simp only [Nat.reducePow, Nat.reduceSub] at bits least most
    refine threeBytes bits (Nat.le_of_not_lt low) high (fun first => ?_) (fun first => ?_)
    · rw [if_pos first] at least
      omega
    · rw [if_pos first] at most
      omega
  split at step
  · rename_i low high
    cases step
    refine ⟨⟨by simp, by dsimp only; split <;> decide, by dsimp only; split <;> decide, ?_⟩, rfl⟩
    rintro n ⟨bits, least, most⟩
    simp only [Nat.reducePow, Nat.reduceSub] at bits least most
    refine fourBytes bits (Nat.le_of_not_lt low) high (fun first => ?_) (fun first => ?_)
    · rw [if_pos first] at least
      omega
    · rw [if_pos first] at most
      omega
  · contradiction

theorem Partial.Sound.takes {begun : Partial} {b : UInt8} {n : Nat} (sound : begun.Sound)
    (range : (decide (begun.low ≤ b.toNat) && decide (b.toNat ≤ begun.high)) = true)
    (bits : n / 64 ^ (begun.owed - 1) = begun.bits * 64 + b.toNat % 64) :
    n.isValidChar ∧
      encodeChar (Char.ofNat n) = begun.bytes ++ b :: lastBytes (begun.owed - 1) n := by
  obtain ⟨least, most⟩ := Bool.and_eq_true_iff.mp range
  have least := of_decide_eq_true least
  have most := of_decide_eq_true most
  have low := sound.low
  have high := sound.high
  obtain ⟨count, owed⟩ := Nat.exists_eq_succ_of_ne_zero (Nat.ne_of_gt sound.owes)
  have next : 0x80 + n / 64 ^ (begun.owed - 1) % 64 = b.toNat := by omega
  have whole : n / 64 ^ begun.owed = begun.bits := by
    rw [owed, Nat.succ_sub_one] at bits
    rw [owed, Nat.pow_succ, ← Nat.div_div_eq_div_mul, bits]
    omega
  obtain ⟨valid, same⟩ := sound.completes n ⟨whole, by omega, by omega⟩
  refine ⟨valid, ?_⟩
  rw [owed, Nat.succ_sub_one] at next ⊢
  rw [same, owed, lastBytes, next, UInt8.ofNat_toNat]

theorem startChar {b : UInt8} {c : Char} (step : start b = .char c) : encodeChar c = [b] := by
  simp only [start] at step
  split at step
  · rename_i small
    cases step
    have valid : b.toNat.isValidChar := Or.inl (by omega)
    rcases encodeCases valid with ⟨_, same⟩ | ⟨_, -⟩ | ⟨_, -⟩ | ⟨_, -⟩
    · rw [same, UInt8.ofNat_toNat]
    all_goals omega
  · split_ifs at step

theorem nextChar {begun : Partial} {b : UInt8} {c : Char} (sound : begun.Sound)
    (step : begun.next b = .char c) : encodeChar c = begun.bytes ++ [b] := by
  simp only [Partial.next] at step
  split_ifs at step with range last
  cases step
  have bits : (begun.bits * 64 + b.toNat % 64) / 64 ^ (begun.owed - 1) =
      begun.bits * 64 + b.toNat % 64 := by
    rw [last, Nat.sub_self, Nat.pow_zero, Nat.div_one]
  obtain ⟨-, same⟩ := sound.takes range bits
  rw [same, last]
  rfl

theorem nextSound {begun later : Partial} {b : UInt8} (sound : begun.Sound)
    (step : begun.next b = .more later) : later.Sound ∧ later.bytes = begun.bytes ++ [b] := by
  simp only [Partial.next] at step
  split_ifs at step with range last
  cases step
  have owes := sound.owes
  refine ⟨⟨by dsimp only; omega, Nat.le_refl _, Nat.le_refl _, ?_⟩, rfl⟩
  rintro n ⟨bits, -, -⟩
  obtain ⟨valid, same⟩ := sound.takes range bits
  exact ⟨valid, by rw [same, List.append_assoc, List.singleton_append]⟩

section Step
variable {unfinished : Option Partial} {b : UInt8}

theorem stepChar {c : Char} (sound : ∀ begun ∈ unfinished, begun.Sound)
    (step : Utf8.step unfinished b = .char c) : encodeChar c = held unfinished ++ [b] := by
  cases unfinished with
  | none => exact startChar step
  | some begun => exact nextChar (sound begun rfl) step

theorem stepMore {later : Partial} (sound : ∀ begun ∈ unfinished, begun.Sound)
    (step : Utf8.step unfinished b = .more later) :
    later.Sound ∧ later.bytes = held unfinished ++ [b] := by
  cases unfinished with
  | none => exact startSound step
  | some begun => exact nextSound (sound begun rfl) step

end Step

theorem decodeFromEncodes {bytes : Bytes} {unfinished : Option Partial} {before s : Text}
    {offset origin : Nat} (sound : ∀ begun ∈ unfinished, begun.Sound)
    (decoded : decodeFrom offset origin unfinished before bytes = .ok s) :
    ∃ t, s = before.reverse ++ t ∧ held unfinished ++ bytes = encode t := by
  induction bytes generalizing unfinished before offset origin with
  | nil =>
    cases unfinished with
    | none =>
      cases decoded
      exact ⟨[], by simp, rfl⟩
    | some begun => cases decoded
  | cons b rest ih =>
    simp only [decodeFrom] at decoded
    split at decoded
    · -- A character is complete, and its encoding is what was held and the byte.
      rename_i c step
      obtain ⟨t, same, spelled⟩ := ih (by simp) decoded
      refine ⟨c :: t, by rw [same]; simp, ?_⟩
      rw [encode, List.flatMap_cons, stepChar sound step, ← encode, ← spelled]
      simp [held]
    · rename_i later step
      obtain ⟨laterSound, bytes⟩ := stepMore sound step
      obtain ⟨t, same, spelled⟩ := ih (fun begun found => by cases found; exact laterSound) decoded
      refine ⟨t, same, ?_⟩
      rw [← spelled, held, bytes, List.append_assoc, List.singleton_append]
    · cases decoded

theorem lastBytesRead {n : Nat} (rest : Bytes) (before : Text) {begun : Partial}
    (owes : 0 < begun.owed) (admits : begun.Admits n) (offset origin : Nat) :
    ∃ offset' origin',
      decodeFrom offset origin (some begun) before (lastBytes begun.owed n ++ rest) =
        decodeFrom offset' origin' none (Char.ofNat n :: before) rest := by
  -- On the number of bytes after the next one; any code that is admitted now is admitted then.
  generalize count : begun.owed - 1 = left
  induction left generalizing begun offset origin with
  | zero =>
    obtain ⟨bits, least, most⟩ := admits
    have last : begun.owed = 1 := by omega
    have value : (UInt8.ofNat (0x80 + n % 64)).toNat = 0x80 + n % 64 :=
      UInt8.toNat_ofNat_of_lt' (Nat.lt_of_le_of_lt (show _ ≤ 0xbf by omega) (by decide))
    rw [last] at bits least most
    simp only [Nat.sub_self, Nat.pow_zero, Nat.div_one, Nat.pow_one] at bits least most
    have whole : begun.bits * 64 + (0x80 + n % 64) % 64 = n := by omega
    have next : begun.next (UInt8.ofNat (0x80 + n % 64)) = .char (Char.ofNat n) := by
      rw [Partial.next, value, decide_eq_true least, decide_eq_true most, Bool.and_self, if_pos rfl,
        if_pos last, whole]
    rw [last]
    simp only [lastBytes, Nat.pow_zero, Nat.div_one, List.cons_append, List.nil_append, decodeFrom,
      step, next]
    exact ⟨_, _, rfl⟩
  | succ left ih =>
    obtain ⟨bits, least, most⟩ := admits
    have owed : begun.owed = left + 1 + 1 := by omega
    have value : (UInt8.ofNat (0x80 + n / 64 ^ (left + 1) % 64)).toNat =
        0x80 + n / 64 ^ (left + 1) % 64 :=
      UInt8.toNat_ofNat_of_lt' (Nat.lt_of_le_of_lt (show _ ≤ 0xbf by omega) (by decide))
    rw [owed, Nat.pow_succ, ← Nat.div_div_eq_div_mul] at bits
    rw [owed, Nat.add_sub_cancel] at least most
    let later : Partial := ⟨begun.bytes ++ [UInt8.ofNat (0x80 + n / 64 ^ (left + 1) % 64)],
      n / 64 ^ (left + 1), left + 1, 0x80, 0xbf⟩
    have whole : begun.bits * 64 + (0x80 + n / 64 ^ (left + 1) % 64) % 64 = n / 64 ^ (left + 1) := by
      omega
    have next : begun.next (UInt8.ofNat (0x80 + n / 64 ^ (left + 1) % 64)) = .more later := by
      rw [Partial.next, value, decide_eq_true least, decide_eq_true most, Bool.and_self, if_pos rfl,
        if_neg (by omega), whole, owed]
      rfl
    have laterAdmits : later.Admits n := ⟨rfl, Nat.le_add_right _ _, by dsimp only [later]; omega⟩
    rw [owed, lastBytes]
    simp only [List.cons_append, decodeFrom, step, next]
    exact ih (Nat.succ_pos left) laterAdmits _ _ rfl

section FirstByte
variable {b : UInt8}

theorem startTwo (low : 0xc2 ≤ b.toNat) (high : b.toNat < 0xe0) :
    start b = .more ⟨[b], b.toNat - 0xc0, 1, 0x80, 0xbf⟩ := by
  rw [start, if_neg (by omega), if_neg (by omega), if_pos high]

theorem startThree (low : 0xe0 ≤ b.toNat) (high : b.toNat < 0xf0) :
    start b = .more ⟨[b], b.toNat - 0xe0, 2, if b.toNat = 0xe0 then 0xa0 else 0x80,
      if b.toNat = 0xed then 0x9f else 0xbf⟩ := by
  rw [start, if_neg (by omega), if_neg (by omega), if_neg (by omega), if_pos high]

theorem startFour (low : 0xf0 ≤ b.toNat) (high : b.toNat < 0xf5) :
    start b = .more ⟨[b], b.toNat - 0xf0, 3, if b.toNat = 0xf0 then 0x90 else 0x80,
      if b.toNat = 0xf4 then 0x8f else 0xbf⟩ := by
  rw [start, if_neg (by omega), if_neg (by omega), if_neg (by omega), if_neg (by omega), if_pos high]

end FirstByte

theorem startReads (c : Char) :
    ∃ b tail, encodeChar c = b :: tail ∧ ((start b = .char c ∧ tail = []) ∨
      ∃ begun, start b = .more begun ∧ 0 < begun.owed ∧ begun.Admits c.toNat ∧
        tail = lastBytes begun.owed c.toNat) := by
  have cases := encodeCases (n := c.toNat) c.valid
  have range : c.toNat < 0xd800 ∨ (0xdfff < c.toNat ∧ c.toNat < 0x110000) := c.valid
  rw [Char.ofNat_toNat] at cases
  have value {n : Nat} (small : n < 256) : (UInt8.ofNat n).toNat = n := UInt8.toNat_ofNat_of_lt' small
  rcases cases with ⟨small, same⟩ | ⟨low, high, same⟩ | ⟨low, high, same⟩ | ⟨low, same⟩
  · refine ⟨_, _, same, Or.inl ⟨?_, rfl⟩⟩
    rw [start, value (by omega), if_pos small, Char.ofNat_toNat]
  · have lead := value (n := 0xc0 + c.toNat / 64) (by omega)
    have step := startTwo (b := UInt8.ofNat (0xc0 + c.toNat / 64)) (by omega) (by omega)
    rw [lead, Nat.add_sub_cancel_left] at step
    exact ⟨_, _, same, Or.inr ⟨_, step, Nat.one_pos,
      ⟨rfl, by dsimp only; omega, by dsimp only; omega⟩, rfl⟩⟩
  · have lead := value (n := 0xe0 + c.toNat / 4096) (by omega)
    have step := startThree (b := UInt8.ofNat (0xe0 + c.toNat / 4096)) (by omega) (by omega)
    rw [lead, Nat.add_sub_cancel_left] at step
    exact ⟨_, _, same, Or.inr ⟨_, step, Nat.two_pos,
      ⟨rfl, by dsimp only; split <;> omega, by dsimp only; split <;> omega⟩, rfl⟩⟩
  · have lead := value (n := 0xf0 + c.toNat / 262144) (by omega)
    have step := startFour (b := UInt8.ofNat (0xf0 + c.toNat / 262144)) (by omega) (by omega)
    rw [lead, Nat.add_sub_cancel_left] at step
    exact ⟨_, _, same, Or.inr ⟨_, step, by simp,
      ⟨rfl, by dsimp only; split <;> omega, by dsimp only; split <;> omega⟩, rfl⟩⟩

theorem encodeCharRead (c : Char) (rest : Bytes) (before : Text) (offset origin : Nat) :
    ∃ offset' origin', decodeFrom offset origin none before (encodeChar c ++ rest) =
      decodeFrom offset' origin' none (c :: before) rest := by
  obtain ⟨b, tail, same, read⟩ := startReads c
  rw [same, List.cons_append]
  rcases read with ⟨step, rfl⟩ | ⟨begun, step, owes, admits, rfl⟩
  · simp only [decodeFrom, Utf8.step, step]
    exact ⟨_, _, rfl⟩
  · simp only [decodeFrom, Utf8.step, step]
    have read := lastBytesRead rest before owes admits
    rw [Char.ofNat_toNat] at read
    exact read _ _

theorem encodeRead (s before : Text) (offset origin : Nat) :
    decodeFrom offset origin none before (encode s) = .ok (before.reverse ++ s) := by
  induction s generalizing before offset origin with
  | nil => simp [encode, decodeFrom]
  | cons c s ih =>
    obtain ⟨offset', origin', same⟩ := encodeCharRead c (encode s) before offset origin
    rw [encode, List.flatMap_cons, ← encode, same, ih]
    simp

theorem decodeExact (bytes : Bytes) (s : Text) : decode bytes = .ok s ↔ bytes = encode s := by
  constructor
  · intro decoded
    obtain ⟨t, rfl, same⟩ := decodeFromEncodes (by simp) decoded
    simpa [held] using same
  · rintro rfl
    rw [decode, encodeRead, List.reverse_nil, List.nil_append]

theorem encodeCharStandard (c : Char) : encodeChar c = String.utf8EncodeChar c := by
  have range : c.toNat < 0xd800 ∨ (0xdfff < c.toNat ∧ c.toNat < 0x110000) := c.valid
  have code : c.val.toNat = c.toNat := rfl
  have atMost (n : Nat) : c.toNat ≤ n ↔ c.toNat < n + 1 := Nat.lt_succ_iff.symm
  simp only [encodeChar, String.utf8EncodeChar, code, atMost, Nat.reduceAdd]
  split_ifs with one two three
  · rfl
  · rw [Nat.mod_eq_of_lt (show c.toNat / 64 < 32 by omega)]
    simp only [Nat.add_comm]
  · rw [Nat.mod_eq_of_lt (show c.toNat / 4096 < 16 by omega)]
    simp only [Nat.add_comm]
  · rw [Nat.mod_eq_of_lt (show c.toNat / 262144 < 8 by omega)]
    simp only [Nat.add_comm]

theorem encodeStandard (s : Text) : encode s = s.flatMap String.utf8EncodeChar := by
  rw [encode, funext encodeCharStandard]

theorem decodeStandard (s : Text) : decode (s.flatMap String.utf8EncodeChar) = .ok s :=
  (decodeExact _ s).mpr (encodeStandard s).symm

end Utf8
end ScriptDoc

import BitcoinTx.Bytes.Basic

/-! Numbers as byte strings of a given width, least or most significant byte first. A number that
does not fit is reduced modulo the width. -/

namespace BitcoinTx

def leBytes : Nat → Nat → Bytes
  | 0, _ => []
  | w + 1, n => UInt8.ofNat n :: leBytes w (n / 256)

def leValue : Bytes → Nat
  | [] => 0
  | b :: bs => b.toNat + 256 * leValue bs

def beBytes (w n : Nat) : Bytes := (leBytes w n).reverse

def beValue (b : Bytes) : Nat := leValue b.reverse

@[simp] theorem length_leBytes (w n : Nat) : (leBytes w n).length = w := by
  induction w generalizing n with
  | zero => rfl
  | succ w ih => simp [leBytes, ih]

@[simp] theorem length_beBytes (w n : Nat) : (beBytes w n).length = w := by
  simp [beBytes]

theorem leValue_leBytes_le (w n : Nat) : leValue (leBytes w n) ≤ n := by
  induction w generalizing n with
  | zero => exact Nat.zero_le n
  | succ w ih =>
    have hrest := ih (n / 256)
    simp only [leBytes, leValue, UInt8.toNat_ofNat']
    omega

theorem leBytes_leValue (b : Bytes) : leBytes b.length (leValue b) = b := by
  induction b with
  | nil => rfl
  | cons x xs ih =>
    have hx := x.toNat_lt
    have hd : (x.toNat + 256 * leValue xs) / 256 = leValue xs := by omega
    have hm : UInt8.ofNat (x.toNat + 256 * leValue xs) = x := by
      apply UInt8.toNat_inj.1
      simp only [UInt8.toNat_ofNat']
      omega
    simp [leBytes, leValue, hd, hm, ih]

theorem beBytes_beValue (b : Bytes) : beBytes b.length (beValue b) = b := by
  have h := leBytes_leValue b.reverse
  rw [List.length_reverse] at h
  rw [beBytes, beValue, h, List.reverse_reverse]

def FixedBytes.ofNat (n v : Nat) : FixedBytes n := ⟨beBytes n v, length_beBytes n v⟩

def FixedBytes.toNat {n : Nat} (b : FixedBytes n) : Nat := beValue b.val

theorem FixedBytes.toNat_ofNat_le (n v : Nat) : (FixedBytes.ofNat n v).toNat ≤ v := by
  change leValue (leBytes n v).reverse.reverse ≤ v
  rw [List.reverse_reverse]
  exact leValue_leBytes_le n v

end BitcoinTx

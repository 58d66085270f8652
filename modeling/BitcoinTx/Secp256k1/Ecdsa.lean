import BitcoinTx.Digest.Hmac
import BitcoinTx.Key.Secret
import BitcoinTx.Signature.Basic

/-! ECDSA over secp256k1. Nonces are derived from the key and the hash as in RFC 6979, with the hash
bytes taken as they are; verification refuses a high `s`. -/

namespace BitcoinTx.Secp256k1

structure NonceState where
  key : Bytes
  value : Bytes

namespace NonceState

def update (g : NonceState) (separator : UInt8) (seed : Bytes) : NonceState :=
  let key := (Hmac.sha256 g.key (g.value ++ separator :: seed)).val
  { key, value := (Hmac.sha256 key g.value).val }

def seeded (seed : Bytes) : NonceState :=
  let g : NonceState := { key := List.replicate 32 0, value := List.replicate 32 1 }
  (g.update 0 seed).update 1 seed

/-- The first output that is a scalar other than zero; gives up after `tries` outputs. -/
def next? (tries : Nat) (g : NonceState) : Option Nat :=
  match tries with
  | 0 => none
  | tries + 1 =>
    let value := (Hmac.sha256 g.key g.value).val
    let k := beValue value
    if 0 < k ∧ k < n then some k else next? tries (update { g with value } 0 [])

end NonceState

/-- An output of the generator is out of range with probability `2 ^ -127`. -/
def nonceTries : Nat := 64

def publicPoint? (k : Nat) : Option Point := ((Jacobian.ofPoint generator).mul k).toPoint?

def sign (key : SecretKey) (hash : Hash256) : Option Signature := do
  let k ← NonceState.next? nonceTries (.seeded (key.bytes.val ++ hash.val))
  let q ← publicPoint? k
  let r := q.x % n
  let s := inverse n k * (hash.toNat + r * key.toNat) % n
  if r = 0 ∨ s = 0 then none else some ⟨.ofNat 32 r, .ofNat 32 s⟩

theorem sign_s_lt {key : SecretKey} {hash : Hash256} {sig : Signature}
    (h : sign key hash = some sig) : sig.s.toNat < n := by
  simp only [sign, Option.bind_eq_bind, Option.bind_eq_some_iff] at h
  obtain ⟨k, -, q, -, h⟩ := h
  split at h
  · contradiction
  · cases h
    exact Nat.lt_of_le_of_lt (FixedBytes.toNat_ofNat_le 32 _) (Nat.mod_lt _ (by decide))

def verify (q : Point) (hash : Hash256) (sig : Signature) : Bool :=
  let r := sig.r.toNat
  let s := sig.s.toNat
  if r = 0 ∨ n ≤ r ∨ s = 0 ∨ halfOrder < s then false
  else
    let w := inverse n s
    let u := (Jacobian.ofPoint generator).mul (hash.toNat * w % n)
    let v := (Jacobian.ofPoint q).mul (r * w % n)
    match (u.add v).toPoint? with
    | some t => t.x % n = r
    | none => false

end BitcoinTx.Secp256k1

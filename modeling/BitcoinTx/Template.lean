import BitcoinTx.Address.Basic

/-! The four standard locking scripts as data, and what unlocks each of them. -/

namespace BitcoinTx

inductive ScriptVersion where
  | base
  | witnessV0
deriving DecidableEq, Repr

/-- A serialized key and a signature by it, with its hash type as last byte. -/
structure KeySignature where
  key : Bytes
  signature : Bytes
deriving DecidableEq

inductive Template where
  | p2pkh (h : Hash160)
  | p2sh (h : Hash160)
  | p2wpkh (h : Hash160)
  | p2wsh (h : Hash256)
deriving DecidableEq

namespace Template

def kind : Template → AddressKind
  | p2pkh _ => .p2pkh
  | p2sh _ => .p2sh
  | p2wpkh _ => .p2wpkh
  | p2wsh _ => .p2wsh

def payload : Template → Bytes
  | p2pkh h | p2sh h | p2wpkh h => h.val
  | p2wsh h => h.val

def version : Template → ScriptVersion
  | p2pkh _ | p2sh _ => .base
  | p2wpkh _ | p2wsh _ => .witnessV0

def lockingScript : Template → Script
  | p2pkh h => .p2pkh h
  | p2sh h => .p2sh h
  | p2wpkh h => .witnessProgram h.val
  | p2wsh h => .witnessProgram h.val

def ofPayload? (kind : AddressKind) (payload : Bytes) : Option Template :=
  match kind with
  | .p2pkh => (FixedBytes.ofBytes? 20 payload).map p2pkh
  | .p2sh => (FixedBytes.ofBytes? 20 payload).map p2sh
  | .p2wpkh => (FixedBytes.ofBytes? 20 payload).map p2wpkh
  | .p2wsh => (FixedBytes.ofBytes? 32 payload).map p2wsh

def ofInstructions? : List Instruction → Option Template
  | [a, b, push, c, d] =>
    if a.opcode = Opcode.dup ∧ b.opcode = Opcode.hash160 ∧ push.opcode = Opcode.data20
        ∧ c.opcode = Opcode.equalVerify ∧ d.opcode = Opcode.checkSig then
      ofPayload? .p2pkh push.content
    else none
  | [a, push, b] =>
    if a.opcode = Opcode.hash160 ∧ push.opcode = Opcode.data20 ∧ b.opcode = Opcode.equal then
      ofPayload? .p2sh push.content
    else none
  | [v, push] =>
    if v.opcode = Opcode.zero ∧ push.opcode = Opcode.data20 then ofPayload? .p2wpkh push.content
    else if v.opcode = Opcode.zero ∧ push.opcode = Opcode.data32 then ofPayload? .p2wsh push.content
    else none
  | _ => none

def ofLockingScript (s : Script) : Except ScriptError Template :=
  match s.instructions with
  | .error _ => .error (.unknownShape s.bytes)
  | .ok l =>
    match ofInstructions? l with
    | some t => .ok t
    | none => .error (.unknownShape s.bytes)

def ofAddress (a : Address) : Template :=
  match h : a.kind with
  | .p2pkh => p2pkh ⟨a.payload, a.payload_length_of h⟩
  | .p2sh => p2sh ⟨a.payload, a.payload_length_of h⟩
  | .p2wpkh => p2wpkh ⟨a.payload, a.payload_length_of h⟩
  | .p2wsh => p2wsh ⟨a.payload, a.payload_length_of h⟩

def toAddress (t : Template) (network : Network) : Except ScriptError Address :=
  Address.create t.kind t.payload network

variable [Crypto]

/-- The redeem script, once it is there and has the hash `expected`. -/
def checkRedeem (commitment : Commitment) (hash : Bytes → Bytes) (expected : Bytes) :
    Option Script → Except ScriptError Script
  | none => .error (.missingRedeem commitment)
  | some r =>
    if hash r.bytes = expected then .ok r else .error (.redeemMismatch commitment expected)

def checkP2sh (h : Hash160) : Option Script → Except ScriptError Script :=
  checkRedeem .p2sh (fun b => (hash160 b).val) h.val

def checkP2wsh (h : Hash256) : Option Script → Except ScriptError Script :=
  checkRedeem .p2wsh (fun b => (sha256 b).val) h.val

/-- The locking script that is evaluated: that of a witness program is the one the same hash or
redeem script would have outside a witness. -/
def finalLockingScript (t : Template) (redeem : Option Script) : Except ScriptError Script :=
  match t with
  | p2pkh h => .ok (.p2pkh h)
  | p2sh h => .ok (.p2sh h)
  | p2wpkh h => .ok (.p2pkh h)
  | p2wsh h => (checkP2wsh h redeem).map fun r => .p2sh (hash160 r.bytes)

def scriptCode (t : Template) (redeem : Option Script) : Except ScriptError (Option Script) :=
  match t with
  | p2pkh _ | p2sh _ => .ok none
  | p2wpkh h => .ok (some (.p2pkh h))
  | p2wsh h => (checkP2wsh h redeem).map some

def single (commitment : KeyCommitment) : List KeySignature → Except ScriptError KeySignature
  | [s] => .ok s
  | l => .error (.signatureCount commitment l.length)

def unlockingScript (t : Template) (signatures : List KeySignature) (redeem : Option Script) :
    Except ScriptError Script :=
  match t with
  | p2pkh _ => do
    let s ← single .p2pkh signatures
    Script.empty.pushAll [s.signature, s.key]
  | p2sh h => do
    let r ← checkP2sh h redeem
    let s ← Script.empty.pushOpcodes [Opcode.zero]
    s.pushAll (signatures.map KeySignature.signature ++ [r.bytes])
  | p2wpkh _ | p2wsh _ => .ok .empty

def witnessStack (t : Template) (signatures : List KeySignature) (redeem : Option Script) :
    Except ScriptError (List Bytes) :=
  match t with
  | p2pkh _ | p2sh _ => .ok []
  | p2wpkh _ => (single .p2wpkh signatures).map fun s => [s.signature, s.key]
  | p2wsh h => (checkP2wsh h redeem).map fun r =>
    [] :: (signatures.map KeySignature.signature ++ [r.bytes])

end Template

def Script.ofWitness (stack : List Bytes) : Except ScriptError Script := Script.empty.pushAll stack

end BitcoinTx

/-! What a signature commits to, as told by its hash type. -/

namespace BitcoinTx

/-- Which outputs are signed, and with them the sequence numbers of the other inputs. -/
inductive HashBase where
  | all
  | none
  | single
deriving DecidableEq, Repr

structure HashType where
  word : UInt32
deriving DecidableEq, Repr

namespace HashType

/-- Every number but those of the other two stands for `all`. -/
def base (t : HashType) : HashBase :=
  let b := t.word &&& 0x1f
  if b = 2 then .none else if b = 3 then .single else .all

def anyoneCanPay (t : HashType) : Bool := t.word &&& 0x80 ≠ 0

def byte (t : HashType) : UInt8 := t.word.toUInt8

end HashType

end BitcoinTx

import BitcoinTx.Address.Basic
import BitcoinTx.Builder.Settings
import BitcoinTx.Key.Secret
import BitcoinTx.Transaction.Input

/-! Transaction builders: a row of groups, each of which may spend one coin and may pay one
destination, and what concerns the whole transaction. -/

namespace BitcoinTx

inductive Destination where
  | address (a : AddressFields)
  /-- A locking script as text. -/
  | script (hex : String)
deriving DecidableEq

structure Payment where
  destination : Destination
  value : UInt64
deriving DecidableEq

structure BuilderGroup where
  coin : Option Coin := none
  keys : List SecretKey := []
  compressed : Bool := true
  hashType : UInt32 := 1
  redeem : Option Script := none
  sequence : UInt32 := Input.finalSequence
  payment : Option Payment := none
deriving DecidableEq

structure Builder where
  settings : BuilderSettings := {}
  earlier : List BuilderGroup := []
  current : BuilderGroup := {}
  change : Option AddressFields := none
  data : List ByteArray := []
  version : UInt32 := 1
  lockTime : UInt32 := 0

namespace Builder

def groups (b : Builder) : List BuilderGroup := b.earlier ++ [b.current]

def next (b : Builder) : Builder := { b with earlier := b.groups, current := {} }

def modifyGroup (b : Builder) (f : BuilderGroup → BuilderGroup) : Builder :=
  { b with current := f b.current }

def spend (b : Builder) (coin : Coin) : Builder := b.modifyGroup ({ · with coin := some coin })

def signBy (b : Builder) (keys : List SecretKey) (compressed : Bool) : Builder :=
  b.modifyGroup ({ · with keys, compressed })

def pay (b : Builder) (destination : Destination) (value : UInt64) : Builder :=
  b.modifyGroup ({ · with payment := some ⟨destination, value⟩ })

def addData (b : Builder) (data : ByteArray) : Builder := { b with data := b.data ++ [data] }

def modifySettings (b : Builder) (f : BuilderSettings → BuilderSettings) : Builder :=
  { b with settings := f b.settings }

end Builder

end BitcoinTx

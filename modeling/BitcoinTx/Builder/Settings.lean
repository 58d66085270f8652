import BitcoinTx.Address.Network

/-! The settings of a transaction builder. -/

namespace BitcoinTx

structure BuilderSettings where
  network : Network := .mainnet
  /-- The fee rate for 1000 virtual bytes; it goes before the flat fee. -/
  relayRate : Option UInt64 := none
  maxFee : UInt64 := 1000000
  flatFee : UInt64 := 0
  sign : Bool := true
deriving DecidableEq

end BitcoinTx

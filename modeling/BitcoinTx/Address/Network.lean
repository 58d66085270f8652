import BitcoinTx.Text.Utf8

/-! The networks, and how each marks its addresses. -/

namespace BitcoinTx

inductive Network where
  | mainnet
  | testnet
  | regtest
deriving DecidableEq, Repr

namespace Network

def all : List Network := [mainnet, testnet, regtest]

def name : Network → String
  | mainnet => "mainnet"
  | testnet => "testnet"
  | regtest => "regtest"

def ofName? (s : String) : Option Network := all.find? (·.name = s)

def p2pkhVersion : Network → UInt8
  | mainnet => 0x00
  | testnet | regtest => 0x6f

def p2shVersion : Network → UInt8
  | mainnet => 0x05
  | testnet | regtest => 0xc4

def hrp : Network → Bytes
  | mainnet => Utf8.encode "bc"
  | testnet => Utf8.encode "tb"
  | regtest => Utf8.encode "bcrt"

end Network

end BitcoinTx

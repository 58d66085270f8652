import BitcoinTx.Address.Basic
import BitcoinTx.Address.Network
import BitcoinTx.Address.Text
import BitcoinTx.Builder.Basic
import BitcoinTx.Builder.Build
import BitcoinTx.Builder.Settings
import BitcoinTx.Bytes.Basic
import BitcoinTx.Bytes.Bits
import BitcoinTx.Bytes.Digits
import BitcoinTx.Bytes.Endian
import BitcoinTx.Crypto
import BitcoinTx.DataError
import BitcoinTx.Digest.Block
import BitcoinTx.Digest.Hmac
import BitcoinTx.Digest.Ripemd160
import BitcoinTx.Digest.Sha256
import BitcoinTx.Eval.Error
import BitcoinTx.Eval.Execute
import BitcoinTx.Eval.Limits
import BitcoinTx.Eval.Machine
import BitcoinTx.Eval.Number
import BitcoinTx.Eval.Operation
import BitcoinTx.Eval.Run
import BitcoinTx.Eval.Stack
import BitcoinTx.Json.Basic
import BitcoinTx.Json.Fields
import BitcoinTx.Json.Read
import BitcoinTx.Json.Records
import BitcoinTx.Json.Token
import BitcoinTx.Key.Public
import BitcoinTx.Key.Secret
import BitcoinTx.Key.Wif
import BitcoinTx.Proofs.Builder.Build
import BitcoinTx.Proofs.Eval.MultiSig
import BitcoinTx.Proofs.Eval.Number
import BitcoinTx.Proofs.Eval.Outcome
import BitcoinTx.Proofs.Eval.Pushing
import BitcoinTx.Proofs.Eval.Runs
import BitcoinTx.Proofs.Eval.Simulation
import BitcoinTx.Proofs.Eval.Standard
import BitcoinTx.Proofs.Eval.Steps
import BitcoinTx.Proofs.Eval.Verify
import BitcoinTx.Proofs.Script.Codec
import BitcoinTx.Proofs.Script.Multisig
import BitcoinTx.Proofs.Script.Pushes
import BitcoinTx.Proofs.Script.Standard
import BitcoinTx.Proofs.Signature.Der
import BitcoinTx.Proofs.Transaction.Bare
import BitcoinTx.Proofs.Transaction.Signing
import BitcoinTx.Proofs.Transaction.Spending
import BitcoinTx.Proofs.Transaction.Verification
import BitcoinTx.Script.Asm
import BitcoinTx.Script.Basic
import BitcoinTx.Script.Error
import BitcoinTx.Script.Instruction
import BitcoinTx.Script.Opcode
import BitcoinTx.Script.Standard
import BitcoinTx.Secp256k1.Curve
import BitcoinTx.Secp256k1.Ecdsa
import BitcoinTx.Signature.Basic
import BitcoinTx.Signature.Der
import BitcoinTx.Template
import BitcoinTx.Text.Base58
import BitcoinTx.Text.Bech32
import BitcoinTx.Text.Blank
import BitcoinTx.Text.Hex
import BitcoinTx.Text.Latin
import BitcoinTx.Text.Utf8
import BitcoinTx.Transaction.Basic
import BitcoinTx.Transaction.Cached
import BitcoinTx.Transaction.Decode
import BitcoinTx.Transaction.Error
import BitcoinTx.Transaction.Estimate
import BitcoinTx.Transaction.HashType
import BitcoinTx.Transaction.Hydration
import BitcoinTx.Transaction.Input
import BitcoinTx.Transaction.LegacyDigest
import BitcoinTx.Transaction.Outpoint
import BitcoinTx.Transaction.Output
import BitcoinTx.Transaction.Signing
import BitcoinTx.Transaction.Size
import BitcoinTx.Transaction.Verification
import BitcoinTx.Transaction.WitnessDigest
import BitcoinTx.Txid
import BitcoinTx.Wire.CompactSize
import BitcoinTx.Wire.Reader
import BitcoinTx.Wire.Value
import BitcoinTx.Proofs.Wire.Layout
import BitcoinTx.Proofs.Transaction.Layout
import BitcoinTx.Proofs.Transaction.Codec
import BitcoinTx.Proofs.Wire.Persistent
import BitcoinTx.Proofs.Transaction.Delimited
import BitcoinTx.Proofs.Transaction.Cache
import BitcoinTx.Proofs.Transaction.History
import BitcoinTx.Proofs.Transaction.LegacyCopy
import BitcoinTx.Proofs.Transaction.Commitment
import BitcoinTx.Proofs.Wire.ReadBack
import BitcoinTx.Proofs.Transaction.WitnessCommitment
import BitcoinTx.Proofs.Builder.Funding
import BitcoinTx.Proofs.Builder.Conservation
import BitcoinTx.Proofs.Eval.Conditional
import BitcoinTx.Proofs.Transaction.Locality
import BitcoinTx.Proofs.Transaction.WitnessScript
import BitcoinTx.Proofs.Transaction.Hydration
import BitcoinTx.Proofs.Builder.Rehydration
import BitcoinTx.Proofs.Eval.Independence
import BitcoinTx.Proofs.Eval.Nesting
import BitcoinTx.Proofs.Eval.Requests
import BitcoinTx.Proofs.Transaction.SignedDigest
import BitcoinTx.Proofs.Bytes.Endian
import BitcoinTx.Proofs.Eval.Matching
import BitcoinTx.Proofs.Transaction.WitnessKey
import BitcoinTx.Proofs.Transaction.RedeemScript
import BitcoinTx.Proofs.Script.Classification
import BitcoinTx.Proofs.Script.PushForms
import BitcoinTx.Proofs.Eval.Replay
import BitcoinTx.Proofs.Transaction.Size
import BitcoinTx.Proofs.Transaction.Estimate
import BitcoinTx.Proofs.Builder.Fees
import BitcoinTx.Proofs.Eval.Arithmetic
import BitcoinTx.Proofs.Eval.Panic
import BitcoinTx.Proofs.Signature.Strict
import BitcoinTx.Proofs.Signature.LowS
import BitcoinTx.Proofs.Transaction.Separators
import BitcoinTx.Proofs.Script.Asm
import BitcoinTx.Proofs.Address.Text
import BitcoinTx.Proofs.Key.Wif
import BitcoinTx.Proofs.Wire.Message
import BitcoinTx.Proofs.Txid

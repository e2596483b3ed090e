import Bitcoin.Bytes
import Bitcoin.Curve.FieldElem
import Bitcoin.Curve.Jacobian
import Bitcoin.Curve.Params
import Bitcoin.Curve.Point
import Bitcoin.Curve.Sec1
import Bitcoin.Ecdsa.Compact
import Bitcoin.Ecdsa.Der
import Bitcoin.Ecdsa.Nonce
import Bitcoin.Ecdsa.Signature
import Bitcoin.Ecdsa.Signing
import Bitcoin.Error
import Bitcoin.Hash
import Bitcoin.Hash.Hmac
import Bitcoin.Hash.Padding
import Bitcoin.Hash.Ripemd160
import Bitcoin.Hash.Sha1
import Bitcoin.Hash.Sha256
import Bitcoin.Hex
import Bitcoin.Integer
import Bitcoin.Json
import Bitcoin.Json.Parser
import Bitcoin.Json.Printer
import Bitcoin.Key.Public
import Bitcoin.Key.Secret
import Bitcoin.Machine.Arithmetic
import Bitcoin.Machine.Context
import Bitcoin.Machine.Crypto
import Bitcoin.Machine.Execute
import Bitcoin.Machine.Fault
import Bitcoin.Machine.Flags
import Bitcoin.Machine.Flow
import Bitcoin.Machine.Frame
import Bitcoin.Machine.Limits
import Bitcoin.Machine.LockTime
import Bitcoin.Machine.Program
import Bitcoin.Machine.Run
import Bitcoin.Machine.Shuffle
import Bitcoin.Machine.SignatureForm
import Bitcoin.Machine.Stack
import Bitcoin.Modular
import Bitcoin.Script.Assembly
import Bitcoin.Script.Basic
import Bitcoin.Script.Build
import Bitcoin.Script.Chunk
import Bitcoin.Script.Error
import Bitcoin.Script.Label
import Bitcoin.Script.Number
import Bitcoin.Script.Opcode
import Bitcoin.Script.Push
import Bitcoin.Script.PushForm
import Bitcoin.Transaction.Basic
import Bitcoin.Transaction.Checking
import Bitcoin.Transaction.Document
import Bitcoin.Transaction.Error
import Bitcoin.Transaction.Reading
import Bitcoin.Transaction.SigHash
import Bitcoin.Transaction.Signing
import Bitcoin.Transaction.Verification
import Bitcoin.TxId
import Bitcoin.Wire.CompactSize
import Bitcoin.Wire.Item
import Bitcoin.Wire.Reader
import Bitcoin.Proofs.Curve.Primes
import Bitcoin.Proofs.Curve.Field
import Bitcoin.Proofs.Curve.Group
import Bitcoin.Proofs.Curve.Multiple
import Bitcoin.Proofs.Ecdsa.Completeness
import Bitcoin.Proofs.Bytes
import Bitcoin.Proofs.Machine.Exec
import Bitcoin.Proofs.Machine.Multisig
import Bitcoin.Proofs.Machine.Refines
import Bitcoin.Proofs.Machine.Relaxation
import Bitcoin.Proofs.Script.Chunk
import Bitcoin.Proofs.Transaction.Commitment
import Bitcoin.Proofs.Ecdsa.Der
import Bitcoin.Proofs.Machine.Effect
import Bitcoin.Proofs.Machine.Evaluation
import Bitcoin.Proofs.Machine.Rounds
import Bitcoin.Proofs.Machine.WellFormed
import Bitcoin.Proofs.Machine.Agreement
import Bitcoin.Proofs.Machine.Pushes
import Bitcoin.Proofs.Machine.Operations
import Bitcoin.Proofs.Script.Decoding
import Bitcoin.Proofs.Machine.ScriptHash
import Bitcoin.Proofs.Curve.Order
import Bitcoin.Proofs.Curve.Action
import Bitcoin.Proofs.Ecdsa.Recovery
import Bitcoin.Proofs.Machine.Shape
import Bitcoin.Proofs.Curve.Sec1
import Bitcoin.Proofs.Curve.Law
import Bitcoin.Proofs.Curve.Repeated
import Bitcoin.Proofs.Wire.Exact
import Bitcoin.Proofs.Transaction.Exact
import Bitcoin.Proofs.Script.Minimal
import Bitcoin.Proofs.Machine.PublicKeyHash
import Bitcoin.Proofs.Key.Signing
import Bitcoin.Proofs.Transaction.Signing
import Bitcoin.Proofs.Machine.Context
import Bitcoin.Proofs.Ensures
import Bitcoin.Proofs.Script.Number
import Bitcoin.Proofs.Script.Separators
import Bitcoin.Proofs.Machine.Bounds
import Bitcoin.Proofs.Machine.RunBounds
import Bitcoin.Proofs.Transaction.TypeByte
import Bitcoin.Proofs.Indexed.Access
import Bitcoin.Proofs.Indexed.Script
import Bitcoin.Proofs.Indexed.Element
import Bitcoin.Proofs.Indexed.Stack
import Bitcoin.Proofs.Indexed.Operations
import Bitcoin.Proofs.Indexed.Signatures
import Bitcoin.Proofs.Indexed.Execute
import Bitcoin.Proofs.Indexed.Run
import Bitcoin.Proofs.Script.MinimalNumber
import Bitcoin.Proofs.Script.Walk
import Bitcoin.Proofs.Machine.Skipped
import Bitcoin.Proofs.Machine.Asked
import Bitcoin.Proofs.Machine.ScriptCode
import Bitcoin.Proofs.Transaction.Edited
import Bitcoin.Proofs.Transaction.Order
import Bitcoin.Proofs.Indexed.Steps
import Bitcoin.Proofs.Ecdsa.Opposite
import Bitcoin.Proofs.Key.Forms
import Bitcoin.Proofs.Machine.LockTime
import Bitcoin.Proofs.Machine.Spending
import Bitcoin.Proofs.Machine.Shortest
import Bitcoin.Proofs.Script.Building
import Bitcoin.Proofs.Script.Assembly
import Bitcoin.Proofs.Machine.Rearrangement
import Bitcoin.Proofs.Machine.OneKey
import Bitcoin.Proofs.Machine.Arithmetic
import Bitcoin.Proofs.Machine.NumberPush
import Bitcoin.Proofs.Wire.Canonical
import Bitcoin.Proofs.Wire.Row
import Bitcoin.Proofs.Ecdsa.Compact
import Bitcoin.Proofs.Machine.Stops
import Bitcoin.Proofs.Machine.Location
import Bitcoin.Proofs.Curve.Integers
import Bitcoin.Proofs.Curve.Closed
import Bitcoin.Proofs.Transaction.Sharing
import Bitcoin.Proofs.Inverse
import Bitcoin.Proofs.Curve.SquareRoot
import Bitcoin.Proofs.Machine.Truth

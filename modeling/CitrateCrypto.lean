import CitrateCrypto.FieldEngine.Tables
import CitrateCrypto.FieldEngine.GF
import CitrateCrypto.FieldEngine.Ops
import CitrateCrypto.FieldEngine.LazyInit
import CitrateCrypto.FieldEngine.RawMultiply
import CitrateCrypto.FieldEngine.Laws
import CitrateCrypto.SecretSharing.Shamir
import CitrateCrypto.SecretSharing.Split
import CitrateCrypto.SecretSharing.Interpolation
import CitrateCrypto.SecretSharing.Secrecy
import CitrateCrypto.SecretSharing.Reconstruct
import CitrateCrypto.SecretSharing.SharedDraws
import CitrateCrypto.KeyAgreement.Pratt
import CitrateCrypto.KeyAgreement.Curve
import CitrateCrypto.KeyAgreement.Order
import CitrateCrypto.KeyAgreement.Decode
import CitrateCrypto.KeyAgreement.ECDH
import CitrateCrypto.KeyAgreement.Canonical
import CitrateCrypto.KeyAgreement.LatticeKeys
import CitrateCrypto.Wire.Hex
import CitrateCrypto.Wire.Json
import CitrateCrypto.Envelope.KeyShares
import CitrateCrypto.Envelope.KeyManager
import CitrateCrypto.Envelope.Failures
import CitrateCrypto.Envelope.Recovery
import CitrateCrypto.Envelope.LatticeEnvelope
import CitrateCrypto.Wire.KeyExchange
import CitrateCrypto.Wire.Utf8
import CitrateCrypto.Wire.DataEncryption
import CitrateCrypto.Wire.Integrity

import Cppcms.Base.Bytes
import Cppcms.Library.BigEndian

/-!
# Records

The header that every record of the protocol starts with, and the numbers of the types of records.
-/

namespace Cppcms

namespace Fastcgi

/-- `fcgi_header` in the order of the host. -/
structure Header where
  version : UInt8
  type : UInt8
  requestId : UInt16
  contentLength : UInt16
  paddingLength : UInt8
  reserved : UInt8
  deriving DecidableEq, Repr

namespace Header

/-- The octets after `to_net`. -/
def toNet (h : Header) : Bytes :=
  [h.version, h.type] ++ bigEndian 2 h.requestId.toNat ++ bigEndian 2 h.contentLength.toNat ++
    [h.paddingLength, h.reserved]

/-- The header with the given octets after `to_host`. -/
def toHost (octets : Bytes) : Header where
  version := octets.getD 0 0
  type := octets.getD 1 0
  requestId := UInt16.ofNat (fromBigEndian [octets.getD 2 0, octets.getD 3 0])
  contentLength := UInt16.ofNat (fromBigEndian [octets.getD 4 0, octets.getD 5 0])
  paddingLength := octets.getD 6 0
  reserved := octets.getD 7 0

/-- `memset` with zero. -/
def zero : Header := ⟨0, 0, 0, 0, 0, 0⟩

@[simp] lemma length_toNet (h : Header) : h.toNet.length = 8 := by
  unfold toNet
  simp only [List.length_append, List.length_cons, List.length_nil, length_bigEndian]

/-- What follows the header of a record. -/
def restLength (h : Header) : ℕ := h.contentLength.toNat + h.paddingLength.toNat

end Header

namespace Kind

abbrev beginRequest : UInt8 := 1
abbrev abortRequest : UInt8 := 2
abbrev endRequest : UInt8 := 3
abbrev params : UInt8 := 4
abbrev stdin : UInt8 := 5
abbrev stdout : UInt8 := 6
abbrev getValues : UInt8 := 9
abbrev getValuesResult : UInt8 := 10

end Kind

/-- `fcgi_version_1`. -/
abbrev version1 : UInt8 := 1

end Fastcgi

end Cppcms

/-
  PassiveDns.Dns.Code

  The numbers of record types and response codes. Every number has a value:
  one without a name of its own is kept as it is.
-/
import PassiveDns.Text.Json

namespace PassiveDns.Dns

open Text (Json)

/-- What a question asks for, or what a record holds. -/
inductive RecordType where
  | a
  | ns
  | cname
  | soa
  | ptr
  | mx
  | txt
  | aaaa
  | srv
  | opt
  | https
  | ixfr
  | axfr
  | any
  | other (number : UInt16)
deriving Repr, DecidableEq, Inhabited

namespace RecordType

/-- The number of a type. -/
def toNumber : RecordType → UInt16
  | a => 1
  | ns => 2
  | cname => 5
  | soa => 6
  | ptr => 12
  | mx => 15
  | txt => 16
  | aaaa => 28
  | srv => 33
  | opt => 41
  | https => 65
  | ixfr => 251
  | axfr => 252
  | any => 255
  | other number => number

/-- The type with a number. -/
def ofNumber (number : UInt16) : RecordType :=
  match number.toNat with
  | 1 => a
  | 2 => ns
  | 5 => cname
  | 6 => soa
  | 12 => ptr
  | 15 => mx
  | 16 => txt
  | 28 => aaaa
  | 33 => srv
  | 41 => opt
  | 65 => https
  | 251 => ixfr
  | 252 => axfr
  | 255 => any
  | _ => other number

/-- The name of a type; one without a name shows its number. -/
def label : RecordType → String
  | a => "A"
  | ns => "Ns"
  | cname => "Cname"
  | soa => "Soa"
  | ptr => "Ptr"
  | mx => "Mx"
  | txt => "Txt"
  | aaaa => "Aaaa"
  | srv => "Srv"
  | opt => "Opt"
  | https => "Https"
  | ixfr => "Ixfr"
  | axfr => "Axfr"
  | any => "Any"
  | other number => "Unknown(" ++ toString number.toNat ++ ")"

/-- The document of a type. -/
def toJson : RecordType → Json
  | other number => .obj [("Unknown", .num number.toNat)]
  | named => .str named.label

end RecordType

/-- How a query ended. -/
inductive ResponseCode where
  | noError
  | formErr
  | servFail
  | nxDomain
  | notImp
  | refused
  | other (number : UInt8)
deriving Repr, DecidableEq, Inhabited

namespace ResponseCode

/-- The number of a code. -/
def toNumber : ResponseCode → UInt8
  | noError => 0
  | formErr => 1
  | servFail => 2
  | nxDomain => 3
  | notImp => 4
  | refused => 5
  | other number => number

/-- The code with a number. -/
def ofNumber (number : UInt8) : ResponseCode :=
  match number.toNat with
  | 0 => noError
  | 1 => formErr
  | 2 => servFail
  | 3 => nxDomain
  | 4 => notImp
  | 5 => refused
  | _ => other number

/-- The name of a code; one without a name shows its number. -/
def label : ResponseCode → String
  | noError => "NOERROR"
  | formErr => "FORMERR"
  | servFail => "SERVFAIL"
  | nxDomain => "NXDOMAIN"
  | notImp => "NOTIMP"
  | refused => "REFUSED"
  | other number => "Other(" ++ toString number.toNat ++ ")"

/-- The document of a code. -/
def toJson : ResponseCode → Json
  | other number => .obj [("Other", .num number.toNat)]
  | named => .str named.label

end ResponseCode

end PassiveDns.Dns

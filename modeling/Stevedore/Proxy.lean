import Stevedore.SortedMap
import Stevedore.Text.Blank
import Stevedore.Text.Pieces

/-!
The proxy variables of the host, and how they are passed on to builds and containers. A variable
may be set in lower case, in upper case or in both; it is always passed on in both.
-/

namespace Stevedore

/-- The proxy variables, in lower case. -/
def proxyNames : List String := ["http_proxy", "https_proxy", "ftp_proxy", "no_proxy"]

/-- The proxy variables set on the host. -/
structure ProxyVariables where
  host : NameMap String := ∅
deriving DecidableEq

namespace ProxyVariables

/-- The proxy variables among some variables, whatever the case of their names. Of two variables
of one name the later one counts. -/
def ofVariables (host : List (String × String)) : ProxyVariables :=
  ⟨.ofList (host.filter fun v => v.1.toLower ∈ proxyNames)⟩

/-- Whether no proxy is set. -/
def isEmpty (p : ProxyVariables) : Bool := p.host.isEmpty

/-- The entries of a list of hosts, with `extra` put after them. -/
def withEntries (hosts : String) (extra : List String) : String :=
  let entries := ((Text.splitText ',' hosts).map Text.trim).filter (· ≠ "")
  ",".intercalate (entries ++ extra)

/-- The values of one variable in lower and in upper case. One that is set in one case only takes
that value in both; the list of exceptions is set as soon as it has entries to hold. -/
def values? (p : ProxyVariables) (extra : List String) (name : String) :
    Option (String × String) :=
  match p.host.get? name, p.host.get? name.toUpper with
  | some lower, some upper => some (lower, upper)
  | some value, none => some (value, value)
  | none, some value => some (value, value)
  | none, none => if name = "no_proxy" && !extra.isEmpty then some ("", "") else none

/-- The variables to pass on. The names in `extra` are reached without a proxy. -/
def passedOn (p : ProxyVariables) (extra : List String) : NameMap String :=
  if p.isEmpty then ∅
  else
    .ofList <| proxyNames.flatMap fun name =>
      match p.values? extra name with
      | none => []
      | some (lower, upper) =>
        if name = "no_proxy" then
          [(name, withEntries lower extra), (name.toUpper, withEntries upper extra)]
        else [(name, lower), (name.toUpper, upper)]

end ProxyVariables

end Stevedore

import ZaqorinCore.Text.Ip
import ZaqorinCore.Text.Unicode

/-!
# URLs of Python

`urllib.parse.urlparse` as far as the scheme and the host name are concerned: what is removed from
the text first, the scheme, the network location with its checks, and the host name in it. A
`ValueError` is `none`. Normalising to NFKC, and the test for the final sigma that `lower` needs,
are parameters.
-/

namespace ZaqorinCore.Text

structure UnicodeData where
  nfkc : Str → Str
  finalSigma : Str → Str → Bool

/-- `s.partition(c)` without the separator. -/
def cutAt (c : Char) (s : Str) : Str × Str :=
  (s.takeWhile (· != c), (s.dropWhile (· != c)).drop 1)

/-- The part after the last `c`, or everything: `s.rpartition(c)[2]`. -/
def afterLast (c : Char) (s : Str) : Str := (s.reverse.takeWhile (· != c)).reverse

def schemeChar (c : Char) : Bool := c.isAlphanum || c == '+' || c == '-' || c == '.'

/-- The scheme, in lower case, and the rest of the text. -/
def splitScheme (url : Str) : Str × Str :=
  let start := url.takeWhile (· != ':')
  if ':' ∈ url ∧ start.head?.any Char.isAlpha ∧ start.all schemeChar then
    (start.map Char.toLower, (url.dropWhile (· != ':')).drop 1)
  else ([], url)

/-- `_check_bracketed_host`. -/
def bracketedHostOk (host : Str) : Bool :=
  match host with
  | 'v' :: rest =>
    let digits := rest.takeWhile isHexDigit
    match rest.dropWhile isHexDigit with
    | '.' :: more => !digits.isEmpty && !more.isEmpty
    | _ => false
  | _ => match ipAddress host with
    | some (.v6 _) => true
    | _ => false

/-- `_checknetloc`. -/
def netlocOk (u : UnicodeData) (netloc : Str) : Bool :=
  let n := netloc.filter fun c => !(c == '@' || c == ':' || c == '#' || c == '?')
  netloc.all (fun c => c.toNat < 128) || u.nfkc n == n ||
    !(u.nfkc n).any fun c => c == '/' || c == '?' || c == '#' || c == '@' || c == ':'

structure SplitUrl where
  scheme : Str
  netloc : Str

/-- `urlsplit`. -/
def urlsplit (u : UnicodeData) (url : Str) : Option SplitUrl :=
  let url := url.dropWhile fun c => c.toNat ≤ 32
  let url := url.filter fun c => !(c == '\t' || c == '\r' || c == '\n')
  let (scheme, url) := splitScheme url
  let netloc := match url with
    | '/' :: '/' :: rest => rest.takeWhile fun c => !(c == '/' || c == '?' || c == '#')
    | _ => []
  if ('[' ∈ netloc ∧ ']' ∉ netloc) ∨ (']' ∈ netloc ∧ '[' ∉ netloc) then none
  else if '[' ∈ netloc ∧ ']' ∈ netloc ∧
      ¬ bracketedHostOk (cutAt ']' (cutAt '[' netloc).2).1 then none
  else if ¬ netlocOk u netloc then none
  else some ⟨scheme, netloc⟩

/-- `_hostinfo[0]`. -/
def SplitUrl.rawHost (url : SplitUrl) : Str :=
  let hostinfo := afterLast '@' url.netloc
  if '[' ∈ hostinfo then (cutAt ']' (cutAt '[' hostinfo).2).1 else (cutAt ':' hostinfo).1

/-- `hostname`: the scope of an address is not changed to lower case. -/
def SplitUrl.hostname (u : UnicodeData) (url : SplitUrl) : Option Str :=
  let host := url.rawHost
  if host = [] then none
  else if '%' ∈ host then
    some (lower u.finalSigma (cutAt '%' host).1 ++ '%' :: (cutAt '%' host).2)
  else some (lower u.finalSigma host)

end ZaqorinCore.Text

/-!
The user who started the program, as a container that runs as that user is told about them: by the
`--user` argument and by the two files that list the users and groups of a system.
-/

namespace Stevedore

/-- A user and their group. -/
structure User where
  uid : Nat
  gid : Nat
  userName : String
  groupName : String
deriving DecidableEq, Repr, Inhabited

namespace User

/-- The user and group as an engine takes them. -/
def userAndGroup (u : User) : String := s!"{u.uid}:{u.gid}"

/-- The file of users, in which the user lives at `home`. Root is always listed, once. -/
def passwdFile (u : User) (home : String) : String :=
  if u.uid = 0 then s!"root:x:0:0:root:{home}:/bin/sh\n"
  else
    "root:x:0:0:root:/root:/bin/sh\n" ++
      s!"{u.userName}:x:{u.uid}:{u.gid}:{u.userName}:{home}:/bin/sh\n"

/-- The file of groups. -/
def groupFile (u : User) : String :=
  if u.gid = 0 then "root:x:0:root\n"
  else s!"root:x:0:root\n{u.groupName}:x:{u.gid}:{u.userName}\n"

end User

end Stevedore

import Svd2Rust.BlockExpansion
import Svd2Rust.FallibleRuns

/-!
# Derivation between the registers of a block

`check_erc_derive_infos` scans the registers of a block and decides which of
them derive from which.  An explicit `derivedFrom` is followed to its root.
Otherwise a register derives implicitly from an earlier array whose name pattern
matches, and an array turns the earlier singles its own pattern matches into
derived ones.

The scan is a fold of `checkErc` over the registers and clusters; its state holds an
`Entry` for each one seen.  `find_root` recurses along `derivedFrom`, which the
device may close to a cycle, so it gets fuel for its stack.
-/

namespace Svd2Rust

/-- The entries of `ercs_type_info`: name, pattern of an array, register or
cluster, and its derive info. -/
structure Entry where
  tyName : String
  regex : Option (String → Bool)
  erc : RegisterCluster
  info : DeriveInfo

/-- `is_derivable`. -/
def isDerivable (sourceReg targetReg : Register) : Bool :=
  sourceReg.info.properties = targetReg.info.properties &&
    sourceReg.info.fields = targetReg.info.fields

section Scan

variable (crates : Crates) (config : Config) (index : Index) (fuel : Nat) (path : BlockPath)

/-- `find_root`. -/
def findRoot : (fuel : Nat) → (dpath : String) → (path : BlockPath) →
    Gen (Register × RegisterPath)
  | 0, _, _ => panicking "stack overflow"
  | fuel + 1, dpath, path => do
      let (dblock, dname) := crates.parseStr dpath
      let rdpath := dblock.getD path
      let regPath := rdpath.newRegister dname
      let d ← okOr ("register " ++ dpath ++ " not found") (index.registers regPath)
      match d.info.derivedFrom with
      | some dp => findRoot fuel dp rdpath
      | none => return (d, regPath)

/-- `compare_this_against_prev`: the root of the first earlier array whose
pattern matches and from which the register can be derived. -/
def compareThisAgainstPrev (reg : Register) (tyName : String) :
    List Entry → Gen (Option RegisterPath)
  | [] => return none
  | prev :: rest =>
      match prev.erc, prev.regex with
      | .register _, some prevRe =>
          if prevRe tyName then do
            let (sourceReg, rpath) ← findRoot crates index fuel prev.tyName path
            if isDerivable sourceReg reg then return some rpath
            else compareThisAgainstPrev reg tyName rest
          else compareThisAgainstPrev reg tyName rest
      | _, _ => compareThisAgainstPrev reg tyName rest

/-- `loop_derive_info`: what a matching earlier single hands on to the array,
and its own derive info afterwards. -/
def loopDeriveInfo (reg : Register) (tyName : String) (prevReg : Register)
    (prevDeriveInfo : DeriveInfo) : Gen (DeriveInfo × DeriveInfo) :=
  match prevDeriveInfo with
  | .root => do
      let (_, implicitRpath) ← findRoot crates index fuel tyName path
      return (.root, if isDerivable prevReg reg then .implicit implicitRpath else .root)
  | .explicit rpath => do
      let (sourceReg, implicitRpath) ← findRoot crates index fuel rpath.name path
      return (if isDerivable sourceReg reg then .implicit implicitRpath else .root, .explicit rpath)
  | .implicit rpath => do
      let (sourceReg, _) ← findRoot crates index fuel rpath.name path
      return (if isDerivable sourceReg reg then .implicit rpath else .root, .implicit rpath)
  | .cluster => bail ("register " ++ prevReg.info.name ++ " represented as cluster")

/-- The end of a round of `compare_prev_against_this`: once the array is
implicit, paths to it are redirected to its own root. -/
def redirect (tyName : String) (myDeriveInfo prevDeriveInfo : DeriveInfo) : Gen DeriveInfo :=
  match myDeriveInfo, prevDeriveInfo with
  | .implicit myRpath, .implicit theirRpath =>
      if theirRpath.name = tyName then do
        let (_, root) ← findRoot crates index fuel myRpath.name path
        return .implicit root
      else return .implicit theirRpath
  | .implicit myRpath, .explicit theirRpath =>
      if theirRpath.name = tyName then do
        let (_, root) ← findRoot crates index fuel myRpath.name path
        return .explicit root
      else return .explicit theirRpath
  | _, _ => return prevDeriveInfo

/-- A round of `compare_prev_against_this`; arrays and clusters are skipped. -/
def visitPrev (reg : Register) (tyName : String) (re : String → Bool) (myDeriveInfo : DeriveInfo)
    (prev : Entry) : Gen (DeriveInfo × Entry) :=
  match prev.erc with
  | .register (.single prevInfo) =>
      if re prev.tyName then do
        let (loopInfo, prevDeriveInfo) ←
          loopDeriveInfo crates index fuel path reg tyName (.single prevInfo) prev.info
        let myDeriveInfo := if myDeriveInfo = .root then loopInfo else myDeriveInfo
        let info ← redirect crates index fuel path tyName myDeriveInfo prevDeriveInfo
        return (myDeriveInfo, { prev with info := info })
      else do
        let info ← redirect crates index fuel path tyName myDeriveInfo prev.info
        return (myDeriveInfo, { prev with info := info })
  | _ => return (myDeriveInfo, prev)

/-- `compare_prev_against_this`: the derive info of an array and the earlier
entries it has changed. -/
def comparePrevAgainstThis (reg : Register) (tyName : String) (re : String → Bool) :
    (myDeriveInfo : DeriveInfo) → List Entry → Gen (DeriveInfo × List Entry)
  | myDeriveInfo, [] => return (myDeriveInfo, [])
  | myDeriveInfo, prev :: rest => do
      let (myDeriveInfo, prev) ← visitPrev crates index fuel path reg tyName re myDeriveInfo prev
      let (myDeriveInfo, rest) ← comparePrevAgainstThis reg tyName re myDeriveInfo rest
      return (myDeriveInfo, prev :: rest)

/-- `explicit_rpath`. -/
def explicitRpath (reg : Register) : Gen (Option RegisterPath) :=
  match reg.info.derivedFrom with
  | some dpath => do
      let (_, root) ← findRoot crates index fuel dpath path
      return some root
  | none => return none

/-- The pattern of an array: its name with any number or `%s` for the index. -/
def arrayPattern (infoName : String) : String :=
  "^" ++ expandDim infoName "([0-9]+|%s)" ++ "$"

/-- One round of the loop of `check_erc_derive_infos`. -/
def checkErc (entries : List Entry) (erc : RegisterCluster) : Gen (List Entry) :=
  match erc with
  | .register reg => do
      let tyName := reg.info.fullname config.ignoreGroups
      let explicit ← explicitRpath crates index fuel path reg
      match reg with
      | .single _ =>
          match explicit with
          | some rpath => return entries ++ [⟨tyName, none, erc, .explicit rpath⟩]
          | none => do
              let found ← compareThisAgainstPrev crates index fuel path reg tyName entries
              let info := match found with
                | some root => if tyName = root.name then .root else .implicit root
                | none => .root
              return entries ++ [⟨tyName, none, erc, info⟩]
      | .array info _ => do
          let re ← okOr ("Error creating regex for register " ++ info.name)
            (crates.regexNew (arrayPattern tyName))
          match explicit with
          | some rpath => return entries ++ [⟨tyName, some re, erc, .explicit rpath⟩]
          | none => do
              let found ← compareThisAgainstPrev crates index fuel path reg tyName entries
              match found with
              | some root => return entries ++ [⟨tyName, some re, erc, .implicit root⟩]
              | none => do
                  let (info, entries) ←
                    comparePrevAgainstThis crates index fuel path reg tyName re .root entries
                  return entries ++ [⟨tyName, some re, erc, info⟩]
  | .cluster cluster => return entries ++ [⟨cluster.info.name, none, erc, .cluster⟩]

/-- `check_erc_derive_infos`. -/
def checkErcDeriveInfos (ercs : List RegisterCluster) : Gen (List DeriveInfo) := do
  let entries ← ercs.foldlM (checkErc crates config index fuel path) []
  return entries.map (·.info)

end Scan

section Entries

variable {crates : Crates} {config : Config} {index : Index} {fuel : Nat} {path : BlockPath}

end Entries

end Svd2Rust

import ProtocolRobustness.Composition.Contract
import ProtocolRobustness.Library.Fallible
import ProtocolRobustness.Library.Runs
import ProtocolRobustness.Library.Table

/-!
# The registry of capabilities

Packages register capabilities under their kind and id.  A capability that is there is not replaced:
the same descriptor adds a provider, another one is refused.  The capabilities of the core package are
never removed, and a registry that is frozen does not change.

* `Capability`, `Package`, `Entry`     what is registered;
* `registerPackage`, `unregisterPackage`   the operations on a registry;
* `Live`, `step`                       the live registry and its operations.
-/

namespace PRF.Extensions
open Table

abbrev Keyword := Composition.Keyword

/-! ## capabilities and packages -/

/-- what a dependency asks for -/
structure Requirement where
  version : Option ℤ
  contractVersion : Option ℤ
  profile : Option Keyword
  deriving DecidableEq

structure Dependency where
  kind : Keyword
  id : Keyword
  requirement : Option Requirement
  optional : Bool
  deriving DecidableEq

/-- the contract a verifier assesses -/
structure Subject where
  kind : Option Keyword
  id : Option Keyword
  contractVersion : Option ℤ
  deriving DecidableEq

/-- fields under the names they had before -/
structure Legacy where
  inputSchemaRef : Option Keyword
  outputSchemaRef : Option Keyword
  verificationContract : Option Keyword
  deriving DecidableEq

structure Capability where
  kind : Keyword
  id : Keyword
  version : Option ℤ
  contractVersion : Option ℤ
  profile : Option Keyword
  entrypoint : Option Keyword
  inputSchema : Option Keyword
  outputSchema : Option Keyword
  verificationContract : Option Keyword
  legacy : Legacy
  compositionContract : Option Composition.Authored
  declaredDependencies : List Dependency
  verifies : Option Subject
  deriving DecidableEq

abbrev CapabilityKey := Keyword × Keyword

def capabilityKey (cap : Capability) : CapabilityKey := (cap.kind, cap.id)

/-- how far a package can be reproduced -/
inductive Sealed
  | unsealed
  | sourcePinned
  | artifactReplayable
  deriving DecidableEq

/-- `source`, `artifact`, `runtime` and `dependencyResolutionRoot` are the sealing roots -/
structure Package (ρ : Type) where
  id : Keyword
  version : String
  apiVersion : ℤ
  manifestVersion : ℤ
  source : Option ρ
  artifact : Option ρ
  runtime : Option ρ
  dependencyResolutionRoot : Option ρ
  capabilities : List Capability
  deriving DecidableEq

structure Provider (ρ : Type) where
  packageId : Keyword
  packageVersion : String
  packageRoot : ρ
  sealedAs : Sealed
  deriving DecidableEq

structure Entry (ρ : Type) where
  capability : Capability
  descriptorRoot : ρ
  builtin : Bool
  providers : List (Provider ρ)
  deriving DecidableEq

abbrev ExtensionMap (ρ : Type) := List (CapabilityKey × Entry ρ)

/-- the hashes of capabilities and packages, and which keywords have a namespace -/
structure Manifests (ρ : Type) where
  descriptorRoot : Capability → ρ
  packageRoot : Package ρ → ρ
  qualified : Keyword → Bool

/-! ## manifests -/

/-- a field under its name, the value under the name before wins -/
def normalizeCapabilityDescriptor (cap : Capability) : Capability :=
  { cap with
    inputSchema := cap.legacy.inputSchemaRef.or cap.inputSchema
    outputSchema := cap.legacy.outputSchemaRef.or cap.outputSchema
    verificationContract := cap.legacy.verificationContract.or cap.verificationContract
    legacy := ⟨none, none, none⟩ }

/-- values under both names that differ -/
def conflicting (legacy canonical : Option Keyword) : Bool :=
  legacy.isSome && canonical.isSome && decide (legacy ≠ canonical)

inductive CapabilityViolation
  | conflictingCapabilityFields
  | unqualifiedCapabilityKind
  | unqualifiedCapabilityId
  | missingEntrypoint
  | invalidCapabilityVersion
  | invalidContractVersion
  | missingVerifierSubjectContract
  | invalidVerifierSubjectKind
  | invalidVerifierSubjectId
  | invalidVerifierSubjectContractVersion
  | invalidCompositionContractVersion
  | missingCompositionInput
  | missingCompositionOutput
  deriving DecidableEq

def evidenceVerifier : Keyword := "evidence/verifier"

section
variable {ρ : Type} [DecidableEq ρ]

def subjectViolations : Option Subject → List CapabilityViolation
  | none => [.missingVerifierSubjectContract]
  | some s =>
    (if s.kind.isNone then [.invalidVerifierSubjectKind] else [])
    ++ (if s.id.isNone then [.invalidVerifierSubjectId] else [])
    ++ (if ¬ 0 < s.contractVersion.getD 0 then [.invalidVerifierSubjectContractVersion] else [])

/-- `validate-embedded-composition-contract` -/
def embeddedViolations : Option Composition.Authored → List CapabilityViolation
  | none => []
  | some c =>
    (if ¬ 0 < c.version.getD 0 then [.invalidCompositionContractVersion] else [])
    ++ (if c.input.isNone then [.missingCompositionInput] else [])
    ++ (if c.output.isNone then [.missingCompositionOutput] else [])

open CapabilityViolation in
def validateCapability (M : Manifests ρ) (cap : Capability) : List CapabilityViolation :=
  (if conflicting cap.legacy.inputSchemaRef cap.inputSchema
      || conflicting cap.legacy.outputSchemaRef cap.outputSchema
      || conflicting cap.legacy.verificationContract cap.verificationContract then
    [conflictingCapabilityFields] else [])
  ++ (if M.qualified cap.kind then [] else [unqualifiedCapabilityKind])
  ++ (if M.qualified cap.id then [] else [unqualifiedCapabilityId])
  ++ (if cap.entrypoint.isNone then [missingEntrypoint] else [])
  ++ (if ¬ 0 < cap.version.getD 0 then [invalidCapabilityVersion] else [])
  ++ (if ¬ 0 < cap.contractVersion.getD 0 then [invalidContractVersion] else [])
  ++ (if cap.kind = evidenceVerifier then subjectViolations cap.verifies else [])
  ++ embeddedViolations cap.compositionContract

inductive PackageViolation
  | unqualifiedPackageId
  | invalidApiVersion
  | invalidManifestVersion
  | capability (v : CapabilityViolation)
  | duplicateCapabilityKey
  deriving DecidableEq

def supportedManifestVersion : ℤ := 1

open PackageViolation in
def validatePackage (M : Manifests ρ) (pkg : Package ρ) : List PackageViolation :=
  (if M.qualified pkg.id then [] else [unqualifiedPackageId])
  ++ (if ¬ 0 < pkg.apiVersion then [invalidApiVersion] else [])
  ++ (if pkg.manifestVersion ≠ supportedManifestVersion then [invalidManifestVersion] else [])
  ++ (pkg.capabilities.flatMap (validateCapability M)).map .capability
  ++ (if ¬ (pkg.capabilities.map capabilityKey).Nodup then [duplicateCapabilityKey] else [])

def sealedClassification (pkg : Package ρ) : Sealed :=
  if pkg.artifact.isSome && pkg.runtime.isSome && pkg.dependencyResolutionRoot.isSome then
    .artifactReplayable
  else if pkg.source.isSome then .sourcePinned
  else .unsealed

/-! ## registries -/

inductive RegistryError
  | invalidPackage
  | invalidCapability
  | replaceBuiltin
  | capabilityCollision
  | registryFrozen
  deriving DecidableEq

def corePackageId : Keyword := "prf/core-economics"

def provider (M : Manifests ρ) (pkg : Package ρ) : Provider ρ where
  packageId := pkg.id
  packageVersion := pkg.version
  packageRoot := M.packageRoot pkg
  sealedAs := sealedClassification pkg

def entry (M : Manifests ρ) (pkg : Package ρ) (cap : Capability) : Entry ρ where
  capability := cap
  descriptorRoot := M.descriptorRoot cap
  builtin := pkg.id = corePackageId
  providers := [provider M pkg]

def registerCapability (M : Manifests ρ) (emap : ExtensionMap ρ) (pkg : Package ρ)
    (capability : Capability) : Except RegistryError (ExtensionMap ρ) :=
  if validatePackage M pkg ≠ [] then .error .invalidPackage
  else if validateCapability M capability ≠ [] then .error .invalidCapability
  else
    let capability := normalizeCapabilityDescriptor capability
    let key := capabilityKey capability
    match find emap key with
    | some existing =>
      if M.descriptorRoot capability = existing.descriptorRoot then
        if existing.providers.any fun p => p.packageRoot = M.packageRoot pkg then .ok emap
        else .ok (put emap key { existing with providers := existing.providers ++ [provider M pkg] })
      else .error (if existing.builtin then .replaceBuiltin else .capabilityCollision)
    | none => .ok (put emap key (entry M pkg capability))

def registerPackage (M : Manifests ρ) (emap : ExtensionMap ρ) (pkg : Package ρ) :
    Except RegistryError (ExtensionMap ρ) :=
  if validatePackage M pkg ≠ [] then .error .invalidPackage
  else pkg.capabilities.foldlM (fun emap cap => registerCapability M emap pkg cap) emap

/-- `dissoc` -/
def without (emap : ExtensionMap ρ) (key : CapabilityKey) : ExtensionMap ρ :=
  emap.filter fun e => e.1 ≠ key

/-- one entry when the providers of a package go -/
def unregisterEntry (pid : Keyword) (acc : ExtensionMap ρ) (e : CapabilityKey × Entry ρ) :
    Except RegistryError (ExtensionMap ρ) :=
  let remaining := e.2.providers.filter fun p => p.packageId ≠ pid
  if e.2.providers.length = remaining.length then .ok acc
  else if e.2.builtin then .error .replaceBuiltin
  else if remaining ≠ [] then .ok (put acc e.1 { e.2 with providers := remaining })
  else .ok (without acc e.1)

def unregisterPackage (emap : ExtensionMap ρ) (pid : Keyword) :
    Except RegistryError (ExtensionMap ρ) :=
  emap.foldlM (unregisterEntry pid) emap

/-! ## the live registry -/

structure Live (ρ : Type) where
  frozen : Bool
  entries : ExtensionMap ρ
  deriving DecidableEq

/-- the operations on the live registry; each is one atomic change -/
inductive Op (ρ : Type)
  | registerCapability (pkg : Package ρ) (cap : Capability)
  | registerPackage (pkg : Package ρ)
  | unregisterCapability (key : CapabilityKey)
  | unregisterPackage (pid : Keyword)
  | freeze

def checkedSwap (s : Live ρ) (f : ExtensionMap ρ → Except RegistryError (ExtensionMap ρ)) :
    Except RegistryError (Live ρ) :=
  if s.frozen then .error .registryFrozen
  else (f s.entries).map fun entries => { s with entries }

def unregisterCapability (emap : ExtensionMap ρ) (key : CapabilityKey) :
    Except RegistryError (ExtensionMap ρ) :=
  match find emap key with
  | none => .ok emap
  | some existing => if existing.builtin then .error .replaceBuiltin else .ok (without emap key)

def step (M : Manifests ρ) (s : Live ρ) : Op ρ → Except RegistryError (Live ρ)
  | .registerCapability pkg cap => checkedSwap s fun emap => registerCapability M emap pkg cap
  | .registerPackage pkg => checkedSwap s fun emap => registerPackage M emap pkg
  | .unregisterCapability key => checkedSwap s fun emap => unregisterCapability emap key
  | .unregisterPackage pid => checkedSwap s fun emap => unregisterPackage emap pid
  | .freeze => .ok { s with frozen := true }

end

end PRF.Extensions

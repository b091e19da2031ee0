-- The users of the application and their accounts in Keycloak
-- (admin/keycloak-provisioning.service.ts over auth/keycloak-admin-client.ts, driven by
-- admin/admin-user.service.ts). Any request to Keycloak may fail.
import Nova.CurrentUser
import Nova.KeycloakRoles
import Nova.Raising
import Nova.RbacTables

namespace nova.provisioning

open labelled_runs raising nova.keycloak_roles nova.rbac_tables program_text

/-! ## Keycloak, with its accounts -/

structure KeycloakUser where
  id : String
  username : String
  email : String
  firstName : String
  lastName : String
  enabled : Bool
deriving DecidableEq

/-- The accounts, the roles, and how many requests there were. -/
structure Site where
  accounts : List KeycloakUser
  roles : Keycloak
  sent : Nat

abbrev Provision := Raising KeycloakAdminError Site

structure CreateKeycloakUserInput where
  username : String
  email : String
  firstName : String
  lastName : String
  enabled : Bool

/-- The client for one operation: which of the requests fail, the id that Keycloak gives to a new
account, and whether it says so in the `Location` header. -/
structure KeycloakAdminClient where
  net : Network
  given : String
  location : Bool

section Client

variable (client : KeycloakAdminClient)

/-- One request: it fails, or Keycloak answers it. -/
def authedFetch {α : Type} (answer : List KeycloakUser →
    Except KeycloakAdminError α × List KeycloakUser) : Provision α := fun site =>
  match client.net site.sent with
  | some error => (.error error, ⟨site.accounts, site.roles, site.sent + 1⟩)
  | none => ((answer site.accounts).1, ⟨(answer site.accounts).2, site.roles, site.sent + 1⟩)

def findUserByUsername (username : String) : Provision (Option KeycloakUser) :=
  authedFetch client fun accounts =>
    (.ok (accounts.find? fun account => account.username = username), accounts)

def newAccount (id : String) (input : CreateKeycloakUserInput) : KeycloakUser :=
  ⟨id, input.username, input.email, input.firstName, input.lastName, input.enabled⟩

/-- `POST /users`: a conflict, or the new account with what the header says. -/
def postUser (input : CreateKeycloakUserInput) : Provision (Option (Option String)) :=
  authedFetch client fun accounts =>
    if accounts.any fun account =>
      account.username = input.username || account.email = input.email
    then (.ok none, accounts)
    else (.ok (some (if client.location then some client.given else none)),
      accounts ++ [newAccount client.given input])

def idOf (existing : Option KeycloakUser) (error : KeycloakAdminError) : Provision String :=
  match existing with
  | some existing => pure existing.id
  | none => raise error

def createUser (input : CreateKeycloakUserInput) : Provision String := do
  let posted ← postUser client input
  match posted with
  | none => do
    let existing ← findUserByUsername client input.username
    idOf existing ⟨"Failed to create the Keycloak user.", some 409⟩
  | some (some id) => pure id
  | some none => do
    let existing ← findUserByUsername client input.username
    idOf existing ⟨"Keycloak did not return the created user id.", none⟩

/-- `PUT /users/{id}` with some of the fields. -/
def putUser (userId : String) (change : KeycloakUser → KeycloakUser) : Provision Unit :=
  authedFetch client fun accounts =>
    if accounts.any fun account => account.id = userId then
      (.ok (), accounts.map fun account => if account.id = userId then change account else account)
    else (.error ⟨"Failed to update the Keycloak user.", some 404⟩, accounts)

def setUserEnabled (userId : String) (enabled : Bool) : Provision Unit :=
  putUser client userId fun account => { account with enabled := enabled }

def updateUserProfile (userId firstName lastName : String) : Provision Unit :=
  putUser client userId fun account =>
    { account with firstName := firstName, lastName := lastName }

/-- The mail is sent or not; the accounts stay. -/
def sendUpdatePasswordEmail : Provision Unit :=
  authedFetch client fun accounts => (.ok (), accounts)

/-- The reconciliation of the roles, after the requests so far. -/
def reconcile (isManagedRole : String → Bool) (keycloakId : String) (desired : List String) :
    Provision Reconcile := fun site =>
  let (result, world) := reconcileRoles (fun n => client.net (site.sent + n)) isManagedRole
    keycloakId desired ⟨site.roles, []⟩
  (result, ⟨site.accounts, world.keycloak, site.sent + world.requests.length⟩)

end Client

/-! ## KeycloakProvisioningService -/

/-- The mail of a new user; that it cannot be sent does not matter. -/
def resetPasswordEmail (client : KeycloakAdminClient) (sendResetPasswordEmail : Bool) :
    Provision Unit :=
  if sendResetPasswordEmail then attempt (sendUpdatePasswordEmail client) else pure ()

structure ProvisionResult where
  keycloakId : Option String
  status : KeycloakSyncStatus
  lastSyncError : Option String
deriving DecidableEq

def NOT_CONFIGURED : ProvisionResult :=
  ⟨none, .not_found, some "Keycloak provisioning is not configured."⟩

/-- The service, with the client if there is one and the registry in force. -/
structure Service where
  client : Option KeycloakAdminClient
  data : RegistryData

/-- `getActiveRegistry().hasRole(name)` -/
def Service.isManagedRole (service : Service) (name : String) : Bool :=
  service.data.policy.roles.contains name

/-- What a `try` block returns, or what is returned where it raises. -/
def Provision.result (x : Provision ProvisionResult) (keycloakId : Option String) (site : Site) :
    ProvisionResult × Site :=
  match x site with
  | (.ok result, site') => (result, site')
  | (.error error, site') => (⟨keycloakId, .error, some error.message⟩, site')

def reconciledResult (keycloakId : String) (reconcile : Reconcile) : ProvisionResult :=
  ⟨some keycloakId, reconcile.status, reconcile.error⟩

section Service

variable (service : Service)

def tryProvision (client : KeycloakAdminClient) (input : CreateKeycloakUserInput)
    (roles : List String) (sendResetPasswordEmail : Bool) : Provision ProvisionResult := do
  let keycloakId ← createUser client input
  let result ← reconcile client service.isManagedRole keycloakId roles
  resetPasswordEmail client sendResetPasswordEmail
  pure (reconciledResult keycloakId result)

def provisionUser (input : CreateKeycloakUserInput) (roles : List String)
    (sendResetPasswordEmail : Bool) (site : Site) : ProvisionResult × Site :=
  match service.client with
  | none => (NOT_CONFIGURED, site)
  | some client =>
    Provision.result (tryProvision service client input roles sendResetPasswordEmail) none site

/-- The id of the account: the one that is known, or that of the user name, or a new one. -/
def accountOf (client : KeycloakAdminClient) (input : CreateKeycloakUserInput) :
    Option String → Provision String
  | some keycloakId => pure keycloakId
  | none => do
    let existing ← findUserByUsername client input.username
    match existing with
    | some existing => pure existing.id
    | none => createUser client input

def trySync (client : KeycloakAdminClient) (input : CreateKeycloakUserInput)
    (roles : List String) (existingKeycloakId : Option String) : Provision ProvisionResult := do
  let keycloakId ← accountOf client input existingKeycloakId
  setUserEnabled client keycloakId input.enabled
  updateUserProfile client keycloakId input.firstName input.lastName
  let result ← reconcile client service.isManagedRole keycloakId roles
  pure (reconciledResult keycloakId result)

def syncUser (input : CreateKeycloakUserInput) (roles : List String)
    (existingKeycloakId : Option String) (site : Site) : ProvisionResult × Site :=
  match service.client with
  | none => (NOT_CONFIGURED, site)
  | some client =>
    Provision.result (trySync service client input roles existingKeycloakId) existingKeycloakId site

end Service

/-! ## AdminUserService -/

structure World where
  tables : current_user.Tables
  site : Site

/-- `KeycloakStatusDto` without what it repeats of the row. -/
structure KeycloakStatusDto where
  «exists» : Bool
  syncStatus : KeycloakSyncStatus
  lastSyncError : Option String
deriving DecidableEq

structure AdminUserDto where
  user : current_user.User
  roles : List String
  permissions : List String
  keycloak : KeycloakStatusDto
deriving DecidableEq

inductive ServiceError where
  | notFound (message : String)
  | conflict (message : String)
  | database
deriving DecidableEq

/-- An operation: what it answers, and what it leaves. -/
abbrev Operation := World → Except ServiceError AdminUserDto × World

structure UpdateUserInput where
  firstName : Option String
  lastName : Option String
  middleName : Option (Option String)
  description : Option (Option String)
  active : Option Bool

/-- The fields that are given. -/
def UpdateUserInput.apply (input : UpdateUserInput) (user : current_user.User) :
    current_user.User :=
  { user with
    firstName := input.firstName.getD user.firstName
    lastName := input.lastName.getD user.lastName
    middleName := input.middleName.getD user.middleName
    description := input.description.getD user.description
    active := input.active.getD user.active }

/-- `UserRepository.update` -/
def update (t : current_user.Tables) (id : String) (input : UpdateUserInput) :
    current_user.Tables :=
  { t with users := t.users.map fun user => if user.id = id then input.apply user else user }

section AdminUserService

variable (service : Service)

def effectivePermissions (roles : List String) : List String :=
  current_user.sorted (service.data.permissionsForRoles (service.data.policy.knownRoles roles))

/-- `toAdminUserDto`, with or without the outcome of a provisioning. -/
def toAdminUserDto (found : current_user.UserWithRoles)
    (overrides : Option (KeycloakSyncStatus × Option String)) : AdminUserDto :=
  ⟨found.user, found.roles, effectivePermissions service found.roles,
    { «exists» := found.user.keycloakId.isSome
      syncStatus := match overrides with
        | some (status, _) => status
        | none => if found.user.keycloakId.isSome then .synced else .not_found
      lastSyncError := overrides.bind Prod.snd }⟩

/-- `requireUser` and the DTO. -/
def reload (id : String) (overrides : Option (KeycloakSyncStatus × Option String)) : Operation :=
  fun w =>
    match current_user.findById w.tables id with
    | none => (.error (.notFound "User not found."), w)
    | some found => (.ok (toAdminUserDto service found overrides), w)

def reloadWithStatus (id : String) (provision : ProvisionResult) : Operation :=
  reload service id (some (provision.status, provision.lastSyncError))

/-- A call of the repository that may throw, and what follows. -/
def orThrow (written : Option current_user.Tables) (next : Operation) : Operation := fun w =>
  match written with
  | none => (.error .database, w)
  | some tables => next ⟨tables, w.site⟩

/-- `setKeycloakId`, when an id came back that the row does not have yet. -/
def linkTo (id : String) (known : Option String) (provision : ProvisionResult) : Operation :=
  fun w =>
    if provision.keycloakId.isSome && provision.keycloakId ≠ known then
      orThrow (current_user.setKeycloakId w.tables id provision.keycloakId)
        (reloadWithStatus service id provision) w
    else reloadWithStatus service id provision w

def inputOf (user : current_user.User) : CreateKeycloakUserInput :=
  ⟨user.email, user.email, user.firstName, user.lastName, user.active⟩

/-- `AdminUserService.createUser`; the database gives the id `fresh`. -/
def adminCreateUser (js : LowerCase) (fresh : String) (input : current_user.CreateUserInput)
    (sendResetPasswordEmail : Bool) : Operation := fun w =>
  let email := js.toLowerCase input.email
  if (current_user.findByEmail w.tables email).isSome then
    (.error (.conflict "A user with this email already exists."), w)
  else
    let created : current_user.User := ⟨fresh, email, input.firstName, input.lastName,
      input.middleName, input.description, none, true⟩
    orThrow (current_user.create w.tables created) (fun w =>
      orThrow (current_user.replaceRoles w.tables fresh input.roles) (fun w =>
        let (provision, site) :=
          provisionUser service (inputOf created) input.roles sendResetPasswordEmail w.site
        linkTo service fresh none provision ⟨w.tables, site⟩) w) w

/-- `syncUser` for the row, without what is done with its result. -/
def syncRow (found : current_user.UserWithRoles) (site : Site) : ProvisionResult × Site :=
  syncUser service (inputOf found.user) found.roles found.user.keycloakId site

def syncUserToKeycloak (id : String) : Operation := fun w =>
  match current_user.findById w.tables id with
  | none => (.error (.notFound "User not found."), w)
  | some found =>
    let (provision, site) := syncRow service found w.site
    linkTo service id found.user.keycloakId provision ⟨w.tables, site⟩

/-- Without a client, and for a row without an account, nothing is sent. -/
def syncAndReload (id : String) : Operation := fun w =>
  match current_user.findById w.tables id with
  | none => (.error (.notFound "User not found."), w)
  | some found =>
    if service.client.isNone || found.user.keycloakId.isNone then
      (.ok (toAdminUserDto service found none), w)
    else
      let (provision, site) := syncRow service found w.site
      (.ok (toAdminUserDto service found (some (provision.status, provision.lastSyncError))),
        ⟨w.tables, site⟩)

def updateUser (id : String) (input : UpdateUserInput) : Operation := fun w =>
  if (current_user.findById w.tables id).isNone then
    (.error (.notFound "User not found."), w)
  else syncAndReload service id ⟨update w.tables id input, w.site⟩

def setUserRoles (id : String) (roles : List String) : Operation := fun w =>
  if (current_user.findById w.tables id).isNone then
    (.error (.notFound "User not found."), w)
  else orThrow (current_user.replaceRoles w.tables id roles) (syncAndReload service id) w

end AdminUserService

end nova.provisioning

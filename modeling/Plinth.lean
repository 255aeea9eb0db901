import Plinth.Lib.Atomic
import Plinth.Lib.Augeas
import Plinth.Lib.Brackets
import Plinth.Lib.Browser
import Plinth.Lib.Calendar
import Plinth.Lib.Dependency
import Plinth.Lib.Distinct
import Plinth.Lib.Effect
import Plinth.Lib.FileSystem
import Plinth.Lib.Fold
import Plinth.Lib.Forms
import Plinth.Lib.Json.Basic
import Plinth.Lib.Json.RoundTrip
import Plinth.Lib.Lookup
import Plinth.Lib.OrderedDict
import Plinth.Lib.Path
import Plinth.Lib.Python.Bytes
import Plinth.Lib.Python.Codec
import Plinth.Lib.Python.Collections
import Plinth.Lib.Python.ConfigParser
import Plinth.Lib.Python.Format
import Plinth.Lib.Python.Integer
import Plinth.Lib.Python.IpAddress
import Plinth.Lib.Python.Os
import Plinth.Lib.Python.Pathlib
import Plinth.Lib.Python.Regex
import Plinth.Lib.Python.Rendering
import Plinth.Lib.Python.Text
import Plinth.Lib.Python.Url
import Plinth.Lib.Python.Value
import Plinth.Lib.Runs
import Plinth.Lib.Uri
import Plinth.Lib.Worklist
import Plinth.Model.ActionUtils
import Plinth.Model.Actions
import Plinth.Model.Actions.Hints
import Plinth.Model.Apache
import Plinth.Model.App
import Plinth.Model.Backups.Api
import Plinth.Model.Backups.Install
import Plinth.Model.Backups.Privileged
import Plinth.Model.Backups.Repository
import Plinth.Model.Backups.Schedule
import Plinth.Model.Backups.Selection
import Plinth.Model.Backups.Settings
import Plinth.Model.Bind
import Plinth.Model.Container
import Plinth.Model.Daemon
import Plinth.Model.Diagnostics
import Plinth.Model.DropinConfigs
import Plinth.Model.DynamicDns
import Plinth.Model.Ejabberd.Listeners
import Plinth.Model.Ejabberd.Turn
import Plinth.Model.Email.Aliases
import Plinth.Model.ErrorRedirect
import Plinth.Model.Firewall
import Plinth.Model.FirstBoot.Startup
import Plinth.Model.FirstBoot.Wizard
import Plinth.Model.Gitweb.Access
import Plinth.Model.Gitweb.Create
import Plinth.Model.Ikiwiki
import Plinth.Model.LetsEncrypt.Certificates
import Plinth.Model.LetsEncrypt.Components
import Plinth.Model.LetsEncrypt.Events
import Plinth.Model.Menu
import Plinth.Model.Messages
import Plinth.Model.Miniflux
import Plinth.Model.ModuleLoader
import Plinth.Model.Names
import Plinth.Model.Names.Static
import Plinth.Model.Networks
import Plinth.Model.NotificationData
import Plinth.Model.Oidc
import Plinth.Model.Operation
import Plinth.Model.Package
import Plinth.Model.Package.Conffiles
import Plinth.Model.PageKite
import Plinth.Model.PrivilegedDaemon
import Plinth.Model.Registries
import Plinth.Model.Samba
import Plinth.Model.Setup
import Plinth.Model.Setup.Repair
import Plinth.Model.Sharing
import Plinth.Model.Ssh
import Plinth.Model.Storage
import Plinth.Model.Tor
import Plinth.Model.TorProxy
import Plinth.Model.Upgrades
import Plinth.Model.Uploads
import Plinth.Model.Users.Directory
import Plinth.Model.Users.Passkeys
import Plinth.Model.Views
import Plinth.Model.Wiki.Blocks
import Plinth.Model.Wiki.Element
import Plinth.Model.Wiki.Text
import Plinth.Model.Wireguard
import Plinth.Proof.ActionUtils.AptHold
import Plinth.Proof.Actions.Exactness
import Plinth.Proof.Actions.Secrets
import Plinth.Proof.Actions.Server
import Plinth.Proof.Actions.Transparency
import Plinth.Proof.Actions.Validation
import Plinth.Proof.Apache
import Plinth.Proof.Apache.Sites
import Plinth.Proof.App
import Plinth.Proof.Backups.Archive
import Plinth.Proof.Backups.Install
import Plinth.Proof.Backups.LeftAsFound
import Plinth.Proof.Backups.Repository
import Plinth.Proof.Backups.Schedule.Archives
import Plinth.Proof.Backups.Schedule.Bounded
import Plinth.Proof.Backups.Schedule.Monthly
import Plinth.Proof.Backups.Schedule.Release
import Plinth.Proof.Backups.Schedule.Retention
import Plinth.Proof.Backups.Schedule.Spacing
import Plinth.Proof.Backups.Schedule.Trigger
import Plinth.Proof.Backups.Selection
import Plinth.Proof.Backups.Services
import Plinth.Proof.Backups.Settings
import Plinth.Proof.Bind
import Plinth.Proof.Container
import Plinth.Proof.Daemon
import Plinth.Proof.Daemon.EnsureRunning
import Plinth.Proof.Diagnostics
import Plinth.Proof.DropinConfigs
import Plinth.Proof.DynamicDns
import Plinth.Proof.Ejabberd.Listeners
import Plinth.Proof.Ejabberd.Turn
import Plinth.Proof.Email.Aliases
import Plinth.Proof.ErrorRedirect
import Plinth.Proof.Firewall.Components
import Plinth.Proof.Firewall.Zones
import Plinth.Proof.FirstBoot.Startup
import Plinth.Proof.FirstBoot.Wizard
import Plinth.Proof.Gitweb.Access
import Plinth.Proof.Gitweb.Create
import Plinth.Proof.Ikiwiki
import Plinth.Proof.LetsEncrypt.Certificates
import Plinth.Proof.LetsEncrypt.Components
import Plinth.Proof.LetsEncrypt.Confinement
import Plinth.Proof.LetsEncrypt.Events
import Plinth.Proof.LetsEncrypt.Renewals
import Plinth.Proof.Menu
import Plinth.Proof.Messages
import Plinth.Proof.Miniflux
import Plinth.Proof.ModuleLoader
import Plinth.Proof.Names
import Plinth.Proof.Names.Static
import Plinth.Proof.Networks
import Plinth.Proof.NotificationData
import Plinth.Proof.Oidc
import Plinth.Proof.Operation.Acceptance
import Plinth.Proof.Operation.Invariant
import Plinth.Proof.Operation.Order
import Plinth.Proof.Operation.Queue
import Plinth.Proof.Operation.Results
import Plinth.Proof.Package
import Plinth.Proof.Package.Conffiles
import Plinth.Proof.PageKite
import Plinth.Proof.PrivilegedDaemon
import Plinth.Proof.Registries
import Plinth.Proof.Samba
import Plinth.Proof.Setup.Isolation
import Plinth.Proof.Setup.KnownPackages
import Plinth.Proof.Setup.Notifications
import Plinth.Proof.Setup.Repair
import Plinth.Proof.Sharing
import Plinth.Proof.Ssh
import Plinth.Proof.Storage
import Plinth.Proof.Tor
import Plinth.Proof.Tor.Bridges
import Plinth.Proof.TorProxy
import Plinth.Proof.Upgrades.Notification
import Plinth.Proof.Upgrades.Perform
import Plinth.Proof.Upgrades.SourcesList
import Plinth.Proof.Uploads
import Plinth.Proof.Users.Commands
import Plinth.Proof.Users.Directory
import Plinth.Proof.Users.Passkeys
import Plinth.Proof.Users.Rename
import Plinth.Proof.Views
import Plinth.Proof.Wiki.Blocks
import Plinth.Proof.Wiki.Docbook
import Plinth.Proof.Wiki.Lists
import Plinth.Proof.Wiki.PlainText
import Plinth.Proof.Wiki.Text
import Plinth.Proof.Wiki.Totality
import Plinth.Proof.Wireguard
import Plinth.Proof.Wireguard.Addresses
import Plinth.Proof.Wireguard.Interfaces

import R8Protocol.Lib.Machine
import R8Protocol.Wire.Precedence
import R8Protocol.Forward.Network
import R8Protocol.Session.Channel
import R8Protocol.Session.Tables
import R8Protocol.Session.Atomicity
import R8Protocol.Session.Idle
import R8Protocol.Session.Isolation
import R8Protocol.Session.Runs
import R8Protocol.Session.Garbage
import R8Protocol.Session.Reference
import R8Protocol.Session.Generic
import R8Protocol.Session.Cookie
import R8Protocol.Session.Completeness
import R8Protocol.Session.Convergence
import R8Protocol.Mobility.Promotion
import R8Protocol.Mobility.Grace
import R8Protocol.Mobility.Cohort
import R8Protocol.Mobility.Recovery
import R8Protocol.Mobility.Results
import R8Protocol.Mobility.Epochs
import R8Protocol.Mobility.Receive
import R8Protocol.Mobility.Admission
import R8Protocol.Mobility.Encodings
import R8Protocol.Redundant.Delivery
import R8Protocol.Redundant.Change
import R8Protocol.Redundant.Slots
import R8Protocol.Redundant.Nonces
import R8Protocol.Redundant.Fleet
import R8Protocol.Redundant.Commit
import R8Protocol.Redundant.Authority
import R8Protocol.Redundant.Exchange
import R8Protocol.Redundant.Removal
import R8Protocol.Forward.Routing
import R8Protocol.Wire.Builders
import R8Protocol.Mobility.Outcomes
import R8Protocol.Mobility.Reservation
import R8Protocol.Mobility.Retry
import R8Protocol.Redundant.Flow
import R8Protocol.Session.Metering
import R8Protocol.Session.Prevalidation
import R8Protocol.Mobility.Reference
import R8Protocol.Mobility.Proposals
import R8Protocol.Session.Retransmit
import R8Protocol.Forward.FailStop
import R8Protocol.Session.Codec
import R8Protocol.Session.ReplayReference
import R8Protocol.Session.CookieReference
import R8Protocol.Redundant.Reference
import R8Protocol.Daemon.Routes
import R8Protocol.Session.Agreement
import R8Protocol.Daemon.Filter
import R8Protocol.Daemon.Isolation
import R8Protocol.Daemon.Echo
import R8Protocol.Mobility.Pair
import R8Protocol.Mobility.Roaming
import R8Protocol.Session.Visit
import R8Protocol.Daemon.Launcher

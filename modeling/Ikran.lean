import Ikran.Dialplan.Specificity
import Ikran.Dialplan.RewriteBounds
import Ikran.Dialplan.Answers
import Ikran.Kpml.Delivery
import Ikran.Sdp.Base64RoundTrip
import Ikran.Sdp.BuildBounds
import Ikran.Sdp.Capabilities
import Ikran.Sdp.CopyRender
import Ikran.Sdp.DebugFilter
import Ikran.Sdp.Isolation
import Ikran.Sdp.NamedEvents
import Ikran.Sdp.Structured
import Ikran.Httpish.PartLengths
import Ikran.Httpish.HeaderLookup
import Ikran.Tcp.Delivery
import Ikran.Sip.Retransmission
import Ikran.Sip.UrlHeaders
import Ikran.Sip.ReferTo
import Ikran.Sip.Redirect
import Ikran.Sip.Challenge
import Ikran.Sip.UnknownParams
import Ikran.Sip.ViaKept
import Ikran.Sip.ContactSorted
import Ikran.Gsm.CallCounts
import Ikran.Gsm.Refusal
import Ikran.Gsm.SrtpRecords
import Ikran.Gsm.Ownership
import Ikran.Cpr.Delivery
import Ikran.Ccapp.Failover
import Ikran.Presence.Ownership
import Ikran.Sip.Publications
import Ikran.Sip.Monitored
import Ikran.Sip.Roles
import Ikran.Sip.Serialized
import Ikran.Sip.SubsAccounting
import Ikran.Sip.SessionAudit
import Ikran.Sip.ClosedRequests
import Ikran.Sdp.ProfileTable
import Ikran.Common.StringIsolation
import Ikran.Common.SinglyLinkList
import Ikran.Gsm.CryptoLines
import Ikran.Gsm.Rollover
import Ikran.Common.ResourceManager
import Ikran.Gsm.RandPool
import Ikran.Gsm.AnatGroups
import Ikran.Ccapp.Localisation
import Ikran.Ccapp.SessionTable
import Ikran.Sdp.TokenBuffers
import Ikran.Sdp.NumericTokens
import Ikran.Sdp.Validators
import Ikran.Common.AddressUtil
import Ikran.Ccapp.CallLogger
import Ikran.Gsm.CodecNegotiation

import Gaze.Boards
import Gaze.Camera
import Gaze.Camera.Errors
import Gaze.Camera.Sizes
import Gaze.Choice
import Gaze.Client
import Gaze.Client.Connecting
import Gaze.Client.Reading
import Gaze.Client.Sessions
import Gaze.Client.Wire
import Gaze.ClientHandler
import Gaze.ClientHandler.Closing
import Gaze.Detection
import Gaze.Detection.Client
import Gaze.Detection.Detectors
import Gaze.Detection.Discovery
import Gaze.Detection.Format
import Gaze.Detection.Jpeg
import Gaze.Detection.Local
import Gaze.Detection.Phone
import Gaze.Detection.Planes
import Gaze.Detection.RoundTrip
import Gaze.Detection.Saving
import Gaze.Detection.Termination
import Gaze.Dictionary
import Gaze.Framing
import Gaze.Java.Calls
import Gaze.Java.HashMap
import Gaze.Java.Prog
import Gaze.Java.Reader
import Gaze.Java.Text
import Gaze.Java.Url
import Gaze.Java.Utf8
import Gaze.Joins
import Gaze.Leaderboard
import Gaze.Draws
import Gaze.Machine
import Gaze.Model
import Gaze.Numbering
import Gaze.Pieces
import Gaze.Protocol
import Gaze.Publishing
import Gaze.Ranking
import Gaze.Rooms
import Gaze.Server
import Gaze.Server.Accepting
import Gaze.Server.Announcing
import Gaze.Server.Answers
import Gaze.Server.Commands
import Gaze.Server.DeathMatch
import Gaze.Server.EndOfGame
import Gaze.Server.Exceptions
import Gaze.Server.Finished
import Gaze.Server.Ledger
import Gaze.Server.Phases
import Gaze.Server.Lobby
import Gaze.Server.Reconnecting
import Gaze.Server.Leaving
import Gaze.Server.Runs
import Gaze.Socket.ByteOrder
import Gaze.Socket.Reading
import Gaze.System
import Gaze.System.Announcements
import Gaze.System.Events
import Gaze.System.Finds
import Gaze.System.Invariant
import Gaze.System.Meanwhile
import Gaze.System.Pending
import Gaze.System.Players
import Gaze.System.Progress
import Gaze.System.Start
import Gaze.System.Views
import Gaze.Threads
import Gaze.Writes
import Gaze.Bits
import Gaze.Jpgd.Blocks
import Gaze.Jpgd.Codes
import Gaze.Jpgd.Coding
import Gaze.Jpgd.Decoding
import Gaze.Jpgd.Markers
import Gaze.Jpgd.Reader
import Gaze.Jpgd.Scan
import Gaze.Jpgd.Tables
import Gaze.PrefixCodes
